import Reckoner.Decimal.Shortest

/-!
# Writing a Number

How a double becomes text. There are two notations: positional, with all digits
around a point, and exponent notation, with one digit before the point. Which
one is taken, and how zero, integers and what is not finite are written, differs
between the places where numbers are shown, so those decisions are the fields of
one record and the rest is shared.

Two layouts exist. Results are meant for reading: integers have no point and
show all their digits, zero has no sign, and exponent notation begins late. A
record of the log is meant to tell values apart from integers and zeros from
each other: a number always has a point or an exponent, and a zero keeps its
sign.

## Main definitions

* `Decimal.positional`: The digits of a decimal around its point.
* `Decimal.scientific`: A decimal in exponent notation.
* `Layout`: The decisions about how numbers are written.
* `Layout.write`: The text of a double in a layout.
* `Layout.result`: How results are written.
* `Layout.record`: How the log writes values.
-/

namespace Reckoner

namespace Decimal

/-- The decimal digits of a natural number. -/
def digitsOf (n : Nat) : List Char :=
  Nat.toDigits 10 n

/-- All digits of a decimal, with a point if some of them stand behind it and at least one digit
    before that point. -/
def positional (d : Decimal) : List Char :=
  let digits := digitsOf d.digits
  match d.exponent with
  | .ofNat zeros => digits ++ List.replicate zeros '0'
  | .negSucc n =>
    let behind := n + 1
    if behind < digits.length then
      digits.take (digits.length - behind) ++ '.' :: digits.drop (digits.length - behind)
    else
      '0' :: '.' :: List.replicate (behind - digits.length) '0' ++ digits

/-- A decimal as one digit, a point with the other digits if there are any, and the exponent. A
    positive exponent is marked by the given sign. -/
def scientific (plus : List Char) (d : Decimal) : List Char :=
  let digits := digitsOf d.digits
  let mantissa :=
    match digits with
    | [] => []
    | [digit] => [digit]
    | digit :: rest => digit :: '.' :: rest
  let exponent := d.exponent + (digits.length - 1 : Nat)
  let written :=
    match exponent with
    | .ofNat n => plus ++ digitsOf n
    | .negSucc n => '-' :: digitsOf (n + 1)
  mantissa ++ 'e' :: written

end Decimal

/-- The decisions about how numbers are written. -/
structure Layout where
  /-- The text of what is no number. -/
  nan : List Char
  /-- The text of the positive infinity. -/
  infinity : List Char
  /-- The text of a zero. -/
  zero : List Char
  /-- Whether the sign of a negative zero is written. -/
  signedZero : Bool
  /-- The smallest magnitude that is written with an exponent because it is large. -/
  large : Float
  /-- The smallest magnitude, zero apart, that is written without an exponent. -/
  small : Float
  /-- The sign of a positive exponent. -/
  plus : List Char
  /-- What marks an integer that is written without an exponent. -/
  integerMark : List Char

namespace Layout

/-- The text of a magnitude that is not zero. Without an exponent, an integer shows all digits
    of its exact value and any other number the shortest that are read back. -/
def writeUnits (layout : Layout) (units : Nat) : List Char :=
  if Binary64.units layout.large ≤ units ∨ units < Binary64.units layout.small then
    (Decimal.shortest units).scientific layout.plus
  else if units % Binary64.unitsPerOne = 0 then
    Decimal.digitsOf (units / Binary64.unitsPerOne) ++ layout.integerMark
  else
    (Decimal.shortest units).positional

/-- A text behind a minus sign, if the number is negative. -/
def signed (negative : Bool) (text : List Char) : List Char :=
  if negative then '-' :: text else text

/-- The text of a double. -/
def write (layout : Layout) (x : Float) : String :=
  String.ofList <|
    match Binary64.parts x with
    | .nan => layout.nan
    | .infinite negative => signed negative layout.infinity
    | .finite negative units =>
      if units = 0 then signed (negative && layout.signedZero) layout.zero
      else signed negative (layout.writeUnits units)

/-- Results have an exponent from `10 ^ 21` on and below one millionth, and the sign of a positive
    exponent is written. -/
def result : Layout where
  nan := ['N', 'a', 'N']
  infinity := ['I', 'n', 'f', 'i', 'n', 'i', 't', 'y']
  zero := ['0']
  signedZero := false
  large := Binary64.nearest (Nat.pow 10 21) 1
  small := Binary64.nearest 1 (Nat.pow 10 6)
  plus := ['+']
  integerMark := []

/-- The log writes an exponent from `10 ^ 16` on and below one ten thousandth. -/
def record : Layout where
  nan := ['N', 'a', 'N']
  infinity := ['i', 'n', 'f']
  zero := ['0', '.', '0']
  signedZero := true
  large := Binary64.nearest (Nat.pow 10 16) 1
  small := Binary64.nearest 1 (Nat.pow 10 4)
  plus := []
  integerMark := ['.', '0']

end Layout

end Reckoner
