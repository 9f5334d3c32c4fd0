import Reckoner.CommandLine.Basic

/-!
# Command Line Arguments

A reader of arguments, for the program as it is run here. What it says is what is
expected of any reader, and nothing is proved of the program that needs this one.

There is one operand, an expression or
the path of a file, and it may well begin with a minus sign. So an argument that
begins with one is taken for options only if all of it are options; otherwise it
is the operand, like any other text. This holds as long as the operand is missing.
Once it is there, an argument in the form of options is read as options, letter
by letter, and an unknown one is an error.

Arguments are read from left to right and the first fault or request for help
decides: what stands behind it is not looked at. In both cases the reader itself has the
answer.

## Main definitions

* `Flag`: The options.
* `Flag.ofLetter?`, `Flag.ofName?`: The option with a short or a long name.
* `Argument`: The forms of an argument.
* `Argument.ofText`: The form of an argument.
* `Request.misuse`, `Request.help`, `Request.version`: What the reader answers itself.
* `Request.ofArguments`: Reads the arguments.
-/

namespace Reckoner

/-- The options. -/
inductive Flag where
  | file
  | ast
  | verbose
  | help
  | version
  deriving DecidableEq

namespace Flag

/-- The option with a short name. -/
def ofLetter? : Char → Option Flag
  | 'f' => some file
  | 'a' => some ast
  | 'v' => some verbose
  | 'h' => some help
  | 'V' => some version
  | _ => none

/-- The option with a long name. -/
def ofName? (name : List Char) : Option Flag :=
  if name = "file".toList then some file
  else if name = "ast".toList then some ast
  else if name = "verbose".toList then some verbose
  else if name = "help".toList then some help
  else if name = "version".toList then some version
  else none

end Flag

/-- The forms of an argument. -/
inductive Argument where
  /-- The marker behind which nothing is an option. -/
  | endOfFlags
  /-- One long or several short options, of which some may be unknown. -/
  | flags (names : List (Option Flag))
  /-- A known long option with a value, which no option takes. -/
  | attachedValue
  /-- Any other text. -/
  | text
  deriving DecidableEq

/-- The form of an argument. A single minus sign is no option. -/
def Argument.ofText (argument : List Char) : Argument :=
  match argument with
  | ['-', '-'] => endOfFlags
  | '-' :: '-' :: long =>
    let name := long.takeWhile (· != '=')
    match Flag.ofName? name with
    | none => flags [none]
    | some flag => if name.length < long.length then attachedValue else flags [some flag]
  | '-' :: letter :: letters => flags ((letter :: letters).map Flag.ofLetter?)
  | _ => text

namespace Request

/-- How the program is called, in short. -/
def usage : String :=
  "Usage: calcengine [OPTIONS] <CONTENTS>\n"

/-- Nothing that makes sense. -/
def misuse : Request :=
  exit { stderr := usage, code := 2 }

/-- What the program tells about itself when asked for help. -/
def help : Request :=
  exit
    { stdout :=
        "A small arithmetic expression engine: lexer, recursive-descent parser and evaluator.\n\n"
          ++ usage
          ++ "\nArguments:\n"
          ++ "  <CONTENTS>  The expression, or the file path with `--file`. May start with `-`\n"
          ++ "\nOptions:\n"
          ++ "  -f, --file     Treat the argument as a file and evaluate each of its lines\n"
          ++ "  -a, --ast      Print the parsed expression instead of its value\n"
          ++ "  -v, --verbose  Log each evaluation to stderr\n"
          ++ "  -h, --help     Print help\n"
          ++ "  -V, --version  Print version\n" }

/-- The name and the version of the program. -/
def version : Request :=
  exit { stdout := "calcengine 0.1.0\n" }

end Request

namespace Options

/-- Puts an option in force, which must not be in force yet. Asking for help or for the version ends
    the reading of the arguments. -/
def enable (options : Options) : Flag → Except Request Options
  | .file => if options.file then .error .misuse else .ok { options with file := true }
  | .ast => if options.ast then .error .misuse else .ok { options with ast := true }
  | .verbose => if options.verbose then .error .misuse else .ok { options with verbose := true }
  | .help => .error .help
  | .version => .error .version

/-- Puts several options in force, one after the other. -/
def enableAll (options : Options) : List (Option Flag) → Except Request Options
  | [] => .ok options
  | none :: _ => .error .misuse
  | some flag :: flags =>
    match options.enable flag with
    | .error request => .error request
    | .ok options => options.enableAll flags

end Options

namespace Request

/-- Reads operands behind the end of the options. -/
def ofOperands (options : Options) : Option String → List String → Request
  | some operand, [] => run options operand
  | none, [operand] => run options operand
  | _, _ => misuse

/-- Reads arguments behind those that put the options in force and gave the operand, if there was
    one. -/
def ofRest (options : Options) (operand : Option String) : List String → Request
  | [] => ofOperands options operand []
  | argument :: rest =>
    match Argument.ofText argument.toList, operand with
    | .endOfFlags, _ => ofOperands options operand rest
    | .attachedValue, _ => misuse
    | .text, some _ => misuse
    | .text, none => ofRest options (some argument) rest
    | .flags names, none =>
      if names.contains none then ofRest options (some argument) rest
      else
        match options.enableAll names with
        | .error request => request
        | .ok options => ofRest options none rest
    | .flags names, some operand =>
      match options.enableAll names with
      | .error request => request
      | .ok options => ofRest options (some operand) rest

/-- Reads the arguments of the program. -/
def ofArguments (arguments : List String) : Request :=
  ofRest {} none arguments

end Request

end Reckoner
