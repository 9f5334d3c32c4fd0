import Reckoner.Binary64.Basic

/-!
# The Shortest Decimal of a Double

Among the decimals that are read back as a given double, the one with the fewest
digits, and of several such the one closest to the double.

Since `2 ^ -1074` is `5 ^ 1074 / 10 ^ 1074`, the magnitude of a double is a whole number of
*steps* of `10 ^ -1074`. A decimal with `g` of these places left out is a
multiple of `10 ^ g` steps, so the search walks over grids, from one that is
coarser than the number down to the finest. On each grid only the two
neighbours of the number have to be tried: reading rounds monotonically, so
if any point of the grid is read back as the number, the neighbour on that
side is too. The finest grid holds the number itself, so the search always finds
something, and what it finds never ends in a zero, for then the grid before
would have had it.

A decimal is tried by reading it, that is, by the same rounding as literals
get.

## Main definitions

* `Decimal`: A decimal number, digits and exponent.
* `Decimal.readsBack`: Whether a number of steps is read as given units.
* `Decimal.onGrid?`: The neighbour on a grid that passes a test, the closer of
  two.
* `Decimal.search`: Walks from a grid to the finer ones.
* `Decimal.shortest`: The shortest decimal of a magnitude.
-/

namespace Reckoner

/-- The number `digits * 10 ^ exponent`. -/
structure Decimal where
  digits : Nat
  exponent : Int
  deriving DecidableEq

namespace Decimal

/-- The decimal places of the finest grid: one unit has as many. -/
def places : Nat := 1074

/-- The number of steps of `10 ^ -places` in one unit. -/
def stepsPerUnit : Nat := Nat.pow 5 places

/-- Whether a number of steps is read as the double with the given pattern. -/
def readsBack (body steps : Nat) : Bool :=
  Binary64.pattern steps stepsPerUnit == body

/-- The multiple of `10 ^ grid` steps next to a number of steps that passes a test, if there is
    one. Of two the closer one is taken, in a tie the larger. -/
def onGrid? (test : Nat → Bool) (steps grid : Nat) : Option Nat :=
  let size := Nat.pow 10 grid
  let below := steps / size
  let above := below + 1
  match test (below * size), test (above * size) with
  | true, true => some (if 2 * (steps % size) < size then below else above)
  | true, false => some below
  | false, true => some above
  | false, false => none

/-- The decimal on the coarsest grid, from the given one down, on which one is found. The finest
    grid holds the number itself. -/
def search (find : Nat → Option Nat) (steps : Nat) : Nat → Decimal
  | 0 => ⟨steps, -places⟩
  | grid + 1 =>
    match find (grid + 1) with
    | some digits => ⟨digits, (grid + 1 : Nat) - (places : Int)⟩
    | none => search find steps grid

/-- The shortest decimal that is read back as the magnitude of so many units. The first grid
    is coarser than the number. -/
def shortest (units : Nat) : Decimal :=
  let steps := units * stepsPerUnit
  let test := readsBack (Binary64.pattern units 1)
  search (onGrid? test steps) steps (Nat.toDigits 10 steps).length

end Decimal

end Reckoner
