import Reckoner.Binary64.Basic

/-!
# The Truncated Remainder

The remainder of two doubles as the division of their exact values leaves it
when the quotient is cut off toward zero. Both magnitudes are whole numbers of
units, so the remainder is a remainder of natural numbers, however large the
quotient is. It is smaller than the divisor and a multiple of the smaller one of
the two last places, hence a double again, and nothing is rounded. It takes the
sign of the dividend, also when it is zero.

## Main definitions

* `Binary64.remainder`: The remainder of the truncated division.
-/

namespace Reckoner

namespace Binary64

/-- The remainder of the division truncated toward zero. An infinite dividend or a zero divisor
    has none; an infinite divisor leaves the dividend as it is. -/
def remainder (a b : Float) : Float :=
  match parts a, parts b with
  | .nan, _ => nan
  | _, .nan => nan
  | .infinite _, _ => nan
  | .finite _ _, .infinite _ => a
  | .finite negative m, .finite _ n => if n = 0 then nan else ofUnits negative (m % n)

end Binary64

end Reckoner
