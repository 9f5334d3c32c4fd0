import Reckoner.Decimal.Layout
import Reckoner.Evaluation

/-!
# Running a Request

What the program writes and how it exits. All of it is computed from the request
and, if that names a file, the content of the file.

The program leaves two things to others. One library reads its arguments, another
writes its log. `Host` is what they do, and the environment that the program runs in. Nothing
here depends on how a record looks, or on which arguments make which request.

A request is answered for one expression or for the lines of a file. In file mode
each line is an expression of its own. Lines are numbered from one
and all of them count, but a line that is empty apart from blanks or begins with
`#` behind them is not run. A line that fails is reported and the others still run. A
carriage return at the end of a line is one of the blanks around it.

The reports of lines are joined one after the other, and joining is all that
happens between them.

## Main definitions

* `Report`: What is written to the two outputs, and the exit code.
* `Report.append`: One report after another.
* `Options`: What options are in force.
* `Request`: What the arguments ask for.
* `Request.path?`: The file that a request needs.
* `Host`: What the program is given.
* `Host.LogsBySeverity`: The log goes by severity.
* `Host.attempt`: What the program does with one expression.
* `Host.runText`: Runs a single expression.
* `Host.runLine`: Runs one line of a file.
* `Host.runLines`: Runs the lines of a text.
* `Host.runFile`: Runs the lines of a file.
* `Host.run`: Runs a request.
-/

namespace Reckoner

/-- What is written to the two outputs, and the exit code. -/
structure Report where
  stdout : String := ""
  stderr : String := ""
  code : Nat := 0
  deriving DecidableEq

namespace Report

/-- One report after another. The graver exit code counts. -/
def append (a b : Report) : Report :=
  { stdout := a.stdout ++ b.stdout, stderr := a.stderr ++ b.stderr, code := max a.code b.code }

instance : Append Report where
  append := append

/-- Joins reports in order. -/
def join (reports : List Report) : Report :=
  reports.foldr (· ++ ·) {}

/-- The report on a file that cannot be read as text. -/
def unreadable (path : String) : Report :=
  { stderr := "Failed to read the input file '" ++ path ++ "'. Perhaps this file does not exist?\n",
    code := 1 }

end Report

/-- The options that are in force. -/
structure Options where
  /-- Whether the operand is the path of a file. -/
  file : Bool := false
  /-- Whether trees are shown instead of values. -/
  ast : Bool := false
  /-- Whether evaluations are logged. -/
  verbose : Bool := false
  deriving DecidableEq

/-- What the arguments ask for. -/
inductive Request where
  /-- Nothing to be run, since the reader of the arguments has the answer. -/
  | exit (report : Report)
  /-- To handle the operand. -/
  | run (options : Options) (operand : String)
  deriving DecidableEq

/-- The file that a request needs. -/
def Request.path? : Request → Option String
  | run options operand => if options.file then some operand else none
  | exit _ => none

/-- What the program is given, by its libraries and by the environment. -/
structure Host where
  /-- What arguments ask for. -/
  request : List String → Request
  /-- The filter of the log that the environment asks for, if it asks for one. -/
  filter? : Option (Event → Bool)
  /-- The filter of the log that starts from some severity. -/
  filterFrom : Severity → Event → Bool
  /-- The record of an event, as it is written to the log. The time in front of it is left out. -/
  record : Event → String

/-- The log goes by severity. The environment asks for no filter, so the one of the program is in
    force, and a filter that starts from some severity lets through all events that are at least as
    grave. -/
structure Host.LogsBySeverity (host : Host) : Prop where
  filter? : host.filter? = none
  filterFrom : ∀ severity event, host.filterFrom severity event = true ↔ severity ≤ event.severity

namespace Host

variable (host : Host) (options : Options)

/-- Whether an event is logged. What is verbose logs evaluations, but no more than that; the
    environment may overrule it. -/
def logs : Event → Bool :=
  host.filter?.getD (host.filterFrom (if options.verbose then .debug else .warn))

/-- What is shown for an expression: its tree or its value, with the events logged on the way. -/
def attempt (text : String) : Except Error String × List Event :=
  if options.ast then
    match (Lexer.ofText text).readStatement with
    | (.ok tree, l) => (.ok tree.render, l.events.filter (host.logs options))
    | (.error cause, l) => (.error (.parse cause), l.events.filter (host.logs options))
  else
    let evaluation := Evaluation.ofText text
    (evaluation.outcome.map Layout.result.write, evaluation.events.filter (host.logs options))

/-- The report on an expression. An error is announced by the given words. -/
def report (announcement text : String) : Report :=
  let (outcome, events) := host.attempt options text
  let log := String.join (events.map host.record)
  match outcome with
  | .ok shown => { stdout := shown ++ "\n", stderr := log }
  | .error cause =>
    { stderr := log ++ announcement ++ ": " ++ cause.message ++ "\n", code := 1 }

/-- Runs a single expression. -/
def runText (text : String) : Report :=
  host.report options "Error" text

/-- Runs the line with a given number, unless it is empty or a comment. -/
def runLine (line : List Char) (number : Nat) : Report :=
  match trim line with
  | [] => {}
  | c :: rest =>
    if c = '#' then {}
    else host.report options ("Error on line " ++ toString number) (String.ofList (c :: rest))

/-- Runs the lines of a text, of which the first has a given number. -/
def runLines (first : Nat) (text : List Char) : Report :=
  Report.join (((text.splitOn '\n').zipIdx first).map fun (line, number) =>
    host.runLine options line number)

/-- Runs the lines of a file. -/
def runFile (content : String) : Report :=
  host.runLines options 1 content.toList

/-- Runs a request, given the content of the file that it needs. There is none if the file cannot be
    read. -/
def run (content : Option ByteArray) : Request → Report
  | .exit report => report
  | .run options operand =>
    if options.file then
      match content.bind String.fromUTF8? with
      | some text => host.runFile options text
      | none => .unreadable operand
    else
      host.runText options operand

end Host

end Reckoner
