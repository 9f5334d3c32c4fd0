import Reckoner.Token

/-!
# Errors

Why an expression has no value. A text may contain a character that begins no
token, its tokens may form no expression, and a tree, if it was built by hand,
may hold a literal or a sign that has no meaning. The three kinds are kept
apart, since reading a text can only fail in the first two ways.

An error holds the cause. The wording is in the `message` functions alone.

## Main definitions

* `LexError`: Why the next token of a text cannot be read.
* `ParseError`: Why tokens form no expression.
* `EvalError`: Why a tree has no value.
* `Error`: Any of these.
-/

namespace Reckoner

/-- Why the next token cannot be read. Positions count characters from zero. -/
inductive LexError where
  | unrecognizedCharacter (c : Char) (position : Nat)
  | incompleteOperator (position : Nat)
  deriving DecidableEq

/-- Why the tokens form no expression. -/
inductive ParseError where
  | lexical (cause : LexError)
  | unexpectedEndOfInput
  | expectedClosingParen (found : Token)
  | unexpectedToken (found : Token)
  deriving DecidableEq

/-- Why a tree has no value. -/
inductive EvalError where
  | invalidNumber (literal : String)
  | unrecognizedUnaryOperator (op : Operator)
  deriving DecidableEq

/-- Why an expression has no value. -/
inductive Error where
  | parse (cause : ParseError)
  | eval (cause : EvalError)
  deriving DecidableEq

/-- The wording of an error in reading a token. -/
def LexError.message : LexError → String
  | unrecognizedCharacter c position =>
    "Unrecognized token \"" ++ String.singleton c ++ "\" at position " ++ toString position ++ "."
  | incompleteOperator position =>
    "Incomplete operator at position " ++ toString position ++ "."

/-- The wording of an error in reading an expression. -/
def ParseError.message : ParseError → String
  | lexical cause => cause.message
  | unexpectedEndOfInput => "Unexpected end of expression."
  | expectedClosingParen found => "Expected \")\", got " ++ found.description ++ "."
  | unexpectedToken found =>
    "Unexpected token " ++ found.description
      ++ ": expected a number, a variable, or parentheses."

/-- The wording of an error in evaluating a tree. -/
def EvalError.message : EvalError → String
  | invalidNumber literal => "Invalid number literal \"" ++ literal ++ "\"."
  | unrecognizedUnaryOperator op => "Unrecognized unary operator \"" ++ op.symbol ++ "\"."

/-- The wording of an error. -/
def Error.message : Error → String
  | parse cause => cause.message
  | eval cause => cause.message

end Reckoner
