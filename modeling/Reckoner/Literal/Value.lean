import Reckoner.Literal.Basic
import Reckoner.Binary64.Basic

/-!
# The Value of a Literal

A literal is read as the double nearest to the decimal it spells, however many
digits it has. Only the part before a second dot counts; what follows that
dot has no influence, not even on whether the literal is valid, as long as it
consists of digits and dots.

The texts that have a value are more than those the scanner makes literals of:
a tree can be built by hand around any text. `value?` therefore
decides by itself which texts it accepts.

## Main definitions

* `Literal.wholePart`: The characters before the first dot.
* `Literal.fractionPart`: The characters between the first dot and the second.
* `Literal.value?`: The value of a literal.

## Theorems

* `value?_isSome_iff`: Which texts have a value.
-/

namespace Reckoner

namespace Literal

/-- The characters before the first dot. -/
def wholePart (text : List Char) : List Char :=
  text.takeWhile (· != '.')

/-- The characters between the first dot and the second one, or the end if there is none. -/
def fractionPart (text : List Char) : List Char :=
  ((text.dropWhile (· != '.')).drop 1).takeWhile (· != '.')

/-- Whether a text consists of digits and dots only and has a digit before its second dot. -/
def isValid (text : List Char) : Bool :=
  text.all (fun c => c.isDigit || c == '.') && !(wholePart text ++ fractionPart text).isEmpty

/-- The value of a literal: the double nearest to the decimal spelled by the part before its
    second dot. -/
def value? (text : String) : Option Float :=
  let chars := text.toList
  if isValid chars then
    let fraction := fractionPart chars
    let digits := wholePart chars ++ fraction
    some (Binary64.nearest (Nat.ofDigitChars 10 digits 0) (Nat.pow 10 fraction.length))
  else
    none

theorem value?_isSome_iff (text : String) :
    (value? text).isSome = true ↔ isValid text.toList = true := by
  unfold value?
  by_cases h : isValid text.toList <;> simp [h]

end Literal

end Reckoner
