import Reckoner.CommandLine.Arguments

/-!
# The Host of the Program

What the program is given where it is run here: the reader of arguments, and a log without
times whose filter cannot be changed from outside.

Records are lines with a text between quotes. Characters of it that would
end the quotes or the line are escaped. Other characters that cannot be seen are left as they
are, so the records of a text with such characters are only readable, and not exact.

## Main definitions

* `Event.line`: The line of a log for an event.
* `Host.standard`: The host.
* `Request.report`: Runs a request there.

## Theorems

* `standard_logsBySeverity`: Its log goes by severity.
-/

namespace Reckoner

/-- The characters of a text between quotes. -/
def quoted (text : String) : String :=
  String.ofList <| '"' :: text.toList.flatMap escaped ++ ['"']
where
  /-- How a character stands between quotes. -/
  escaped : Char → List Char
    | '"' => ['\\', '"']
    | '\\' => ['\\', '\\']
    | '\n' => ['\\', 'n']
    | '\r' => ['\\', 'r']
    | '\t' => ['\\', 't']
    | '\x00' => ['\\', '0']
    | c => [c]

/-- The line of a log for an event. -/
def Event.line : Event → String
  | lexed token position =>
    "TRACE calcengine::interpreter::lexer: lexed token token=" ++ token.description
      ++ " position=" ++ toString position ++ "\n"
  | evaluated node value =>
    "TRACE calcengine::interpreter::evaluator::core: evaluated node node=" ++ node.render
      ++ " value=" ++ Layout.record.write value ++ "\n"
  | finished source (.ok value) =>
    "DEBUG calcengine: evaluated expression source=" ++ quoted source ++ " value="
      ++ Layout.record.write value ++ "\n"
  | finished source (.error cause) =>
    "DEBUG calcengine: evaluation failed source=" ++ quoted source ++ " error="
      ++ cause.message ++ "\n"

namespace Host

/-- The host of the program where it is run here. -/
def standard : Host where
  request := Request.ofArguments
  filter? := none
  filterFrom severity event := decide (severity ≤ event.severity)
  record := Event.line

/-- The log of this host goes by severity. -/
theorem standard_logsBySeverity : standard.LogsBySeverity where
  filter? := rfl
  filterFrom _ _ := decide_eq_true_iff

end Host

/-- Runs a request where the program is run here, given the content of the file that it needs. -/
def Request.report (content : Option ByteArray) (request : Request) : Report :=
  Host.standard.run content request

end Reckoner
