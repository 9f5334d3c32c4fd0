import Reckoner.Operator

/-!
# Tokens

What a text is cut into. A number token carries the literal it was read from
and a blank the character it stands for, so a token by itself says which
characters it covers, and a number without a text does not exist.

## Main definitions

* `Token`: The tokens.
* `Token.spelling`: The characters a token covers.
* `Token.width`: How many characters a token covers.
* `Token.isEnd`: Whether a token is the end of the input.
* `Token.literal?`: The literal of a number.
* `Token.operatorIf?`: The operator of a token, if it is of a certain kind.
* `Token.description`: How messages name a token.

## Theorems

* `isEnd_eq_false`: Only the end of the input is the end.
* `operatorIf?_eq_some`: Which tokens have an operator of a certain kind.
-/

namespace Reckoner

/-- The tokens of a text. The end of the input is a token too, which covers no character. -/
inductive Token where
  | openParen
  | closeParen
  | operator (op : Operator)
  | number (literal : String)
  | blank (c : Char)
  | endOfInput
  deriving DecidableEq

namespace Token

/-- The characters a token covers. -/
def spelling : Token → List Char
  | openParen => ['(']
  | closeParen => [')']
  | operator op => op.glyphs
  | number literal => literal.toList
  | blank c => [c]
  | endOfInput => []

/-- How many characters a token covers. -/
def width (t : Token) : Nat :=
  t.spelling.length

/-- Whether a token is the end of the input. -/
def isEnd : Token → Bool
  | endOfInput => true
  | _ => false

/-- Whether a token counts for the grammar and is part of the text: no blank and not its end. -/
def isSolid : Token → Bool
  | blank _ | endOfInput => false
  | _ => true

/-- The literal of a number token. -/
def literal? : Token → Option String
  | number literal => some literal
  | _ => none

/-- The operator of a token, if it has one of a certain kind. -/
def operatorIf? (kind : Operator → Bool) : Token → Option Operator
  | operator op => if kind op then some op else none
  | _ => none

/-- How messages name a token: in quotes if its spelling is fixed, else by its kind. -/
def description : Token → String
  | openParen => "\"(\""
  | closeParen => "\")\""
  | operator op => "\"" ++ op.symbol ++ "\""
  | number _ => "number"
  | blank _ => "whitespace"
  | endOfInput => "end of input"

theorem isEnd_eq_false {t : Token} (h : t ≠ .endOfInput) : t.isEnd = false := by
  cases t with
  | endOfInput => exact absurd rfl h
  | _ => rfl

theorem operatorIf?_eq_some {kind : Operator → Bool} {t : Token} {op : Operator} :
    t.operatorIf? kind = some op ↔ t = .operator op ∧ kind op = true := by
  cases t with
  | operator op' =>
    by_cases h : kind op' = true
    · simp only [operatorIf?, h, if_true, Option.some.injEq, operator.injEq]
      constructor
      · rintro rfl
        exact ⟨rfl, h⟩
      · exact And.left
    · simp only [operatorIf?, h, operator.injEq]
      constructor
      · intro hn
        exact absurd hn (by simp)
      · rintro ⟨rfl, hk⟩
        exact absurd hk h
  | _ => simp [operatorIf?]

theorem ne_endOfInput_of_operatorIf? {kind : Operator → Bool} {t : Token} {op : Operator}
    (h : t.operatorIf? kind = some op) : t ≠ .endOfInput := by
  rw [(operatorIf?_eq_some.mp h).1]
  exact Token.noConfusion

end Token

end Reckoner
