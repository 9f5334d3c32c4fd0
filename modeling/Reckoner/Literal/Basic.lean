/-!
# Number Literals

The spelling of a number literal, as a scanner meets it. A literal is made of
ASCII digits and dots and has no exponent and no sign. It is either digits with
an optional dot and optional further digits, or it opens with a dot, and then
the digits after that dot again follow the first form. So `5`, `5.`, `.5` and
`.5.3` are one literal each, `5.5.5` is two, and a dot with no digit behind it is
none.

The scanner takes the longest literal at the front of a text. It never has to
give a character back: whether a dot opens a literal is decided by the one
character behind it, and from there on digits and one dot are taken as long as
they last.

## Main definitions

* `Literal.opensWithDigit`: Whether a text begins with a digit.
* `Literal.fractionPrefix`: The dot and the digits that may follow a whole part.
* `Literal.decimalPrefix`: The digits at the front of a text, with what
  fraction follows them.
* `Literal.longestPrefix?`: The longest literal at the front of a text.

## Theorems

* `decimalPrefix_ne_nil`: A text that opens with a digit has a decimal in front.
* `longestPrefix?_ne_nil`: A literal is never empty.
-/

namespace Reckoner

namespace Literal

/-- Whether a text begins with an ASCII digit. -/
def opensWithDigit : List Char → Bool
  | [] => false
  | c :: _ => c.isDigit

/-- The dot and the digits that may follow the whole part of a literal. -/
def fractionPrefix : List Char → List Char
  | [] => []
  | c :: rest => if c = '.' then c :: rest.takeWhile Char.isDigit else []

/-- The digits at the front of a text, together with the fraction behind them. -/
def decimalPrefix (text : List Char) : List Char :=
  text.takeWhile Char.isDigit ++ fractionPrefix (text.dropWhile Char.isDigit)

/-- The longest literal at the front of a text, or nothing if none stands there. -/
def longestPrefix? (text : List Char) : Option (List Char) :=
  match text with
  | [] => none
  | c :: rest =>
    if c = '.' then
      if opensWithDigit rest then some (c :: decimalPrefix rest) else none
    else
      if opensWithDigit text then some (decimalPrefix text) else none

theorem decimalPrefix_ne_nil {text : List Char} (h : opensWithDigit text = true) :
    decimalPrefix text ≠ [] := by
  cases text with
  | nil => simp [opensWithDigit] at h
  | cons c rest =>
    have hc : c.isDigit = true := h
    simp [decimalPrefix, hc]

theorem longestPrefix?_ne_nil {text literal : List Char}
    (h : longestPrefix? text = some literal) : literal ≠ [] := by
  unfold longestPrefix? at h
  split at h
  · exact absurd h (by simp)
  · split at h
    · split at h
      · rw [← Option.some.inj h]
        exact List.cons_ne_nil _ _
      · exact absurd h (by simp)
    · split at h
      · rename_i hd
        rw [← Option.some.inj h]
        exact decimalPrefix_ne_nil hd
      · exact absurd h (by simp)

end Literal

end Reckoner
