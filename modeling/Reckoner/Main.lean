import Reckoner.CommandLine.Report

/-!
# The Program

Reads the file that the request names, if it names one, and passes the report on.
-/

namespace Reckoner

/-- The content of a file, if it can be read. -/
def readFile? (path : String) : IO (Option ByteArray) := do
  try
    let content ← IO.FS.readBinFile path
    return some content
  catch _ =>
    return none

end Reckoner

/-- Runs the program on its arguments. -/
def main (arguments : List String) : IO UInt32 := do
  let request := Reckoner.Host.standard.request arguments
  let content ← match request.path? with
    | some path => Reckoner.readFile? path
    | none => pure none
  let report := request.report content
  IO.print report.stdout
  IO.eprint report.stderr
  return UInt32.ofNat report.code
