/-!
# Double Precision Numbers, Exactly

The finite doubles are the multiples of `2 ^ -1074` that need at most 53
significant bits and stay below `2 ^ 1024`. So the magnitude of a double is a natural number, its
count of *units* of `2 ^ -1074`, and every question about doubles that has to be
answered without rounding error becomes a question about natural numbers: a
remainder is a remainder of units, an integer is a multiple of `2 ^ 1074`
units, and two magnitudes compare as their units do.

The way back is rounding. The units of a quotient `n / d` are cut down to 53
bits, to the nearest and in a tie to the even neighbour. With `k` the number of
bits cut off and `m` the rounded rest, the bit pattern of the result is
`k * 2 ^ 52 + m`: the leading bit of `m` raises the exponent field from `k` to
`k + 1`, subnormal numbers have `k = 0` and no leading bit, and a carry out of
`m` moves into the next exponent by itself. What reaches the pattern of the
infinity or passes it is infinite.

## Main definitions

* `Binary64.Parts`: A double taken apart.
* `Binary64.parts`: Takes a double apart.
* `Binary64.units`: The magnitude of a double, counted in units.
* `Binary64.roundHalfEven`: A quotient rounded to an integer, ties to even.
* `Binary64.pattern`: The bit pattern nearest to a quotient of units.
* `Binary64.ofPattern`: The double with a sign and a pattern below it.
* `Binary64.nan`: The value that is no number.
* `Binary64.nearest`: The double nearest to a quotient.

## Theorems

* `roundHalfEven_one`: Rounding an integer changes nothing.
* `roundHalfEven_le`: Rounding never passes an integer above the quotient.
-/

namespace Reckoner

namespace Binary64

/-- The number of units in one. -/
def unitsPerOne : Nat := Nat.pow 2 1074

/-- The bits below the exponent field. -/
def fractionSize : Nat := Nat.pow 2 52

/-- The pattern of the positive infinity. -/
def infinityPattern : Nat := 2047 * fractionSize

/-- The weight of the sign bit. -/
def signWeight : Nat := Nat.pow 2 63

/-- A double taken apart: no number, an infinity with its sign, or a sign and a magnitude in
    units. The sign of a zero counts. -/
inductive Parts where
  | nan
  | infinite (negative : Bool)
  | finite (negative : Bool) (units : Nat)
  deriving DecidableEq

/-- The units of the pattern of a finite magnitude. The smallest exponent field has no implicit
    leading bit. -/
def patternUnits (body : Nat) : Nat :=
  let exponent := body / fractionSize
  let fraction := body % fractionSize
  if exponent = 0 then fraction else (fractionSize + fraction) * Nat.pow 2 (exponent - 1)

/-- Takes a double apart. -/
def parts (x : Float) : Parts :=
  let bits := x.toBits.toNat
  let negative := decide (signWeight ≤ bits)
  let body := bits % signWeight
  if infinityPattern < body then .nan
  else if body = infinityPattern then .infinite negative
  else .finite negative (patternUnits body)

/-- The magnitude of a double in units. What is not finite is given the units that its pattern
    would have as a finite number, so that it still lies above all finite numbers. -/
def units (x : Float) : Nat :=
  patternUnits (x.toBits.toNat % signWeight)

/-- The quotient `n / d` rounded to the nearest integer; a tie goes to the even one. -/
def roundHalfEven (n d : Nat) : Nat :=
  let quotient := n / d
  let rest := n % d
  if 2 * rest < d ∨ (2 * rest = d ∧ quotient % 2 = 0) then quotient else quotient + 1

/-- The pattern of the magnitude nearest to `n / d` units. -/
def pattern (n d : Nat) : Nat :=
  let cut := (n / d).log2 - 52
  min (cut * fractionSize + roundHalfEven n (d * Nat.pow 2 cut)) infinityPattern

/-- The double with a given sign and the given pattern below its sign bit. -/
def ofPattern (negative : Bool) (body : Nat) : Float :=
  Float.ofBits (UInt64.ofNat (negative.toNat * signWeight + body))

/-- The double with a given sign and a magnitude nearest to a number of units. -/
def ofUnits (negative : Bool) (units : Nat) : Float :=
  ofPattern negative (pattern units 1)

/-- The one value that is no number. -/
def nan : Float :=
  ofPattern false (infinityPattern + fractionSize / 2)

/-- The double nearest to the quotient `n / d`. -/
def nearest (n d : Nat) : Float :=
  ofPattern false (pattern (n * unitsPerOne) d)

theorem roundHalfEven_one (n : Nat) : roundHalfEven n 1 = n := by
  simp [roundHalfEven, Nat.mod_one]

theorem roundHalfEven_le {n d m : Nat} (hd : 0 < d) (h : n ≤ m * d) : roundHalfEven n d ≤ m := by
  have hq : n / d ≤ m := Nat.div_le_of_le_mul (by rwa [Nat.mul_comm])
  unfold roundHalfEven
  dsimp only
  split
  · exact hq
  · rename_i hne
    have hr : 0 < n % d := by
      rcases Nat.eq_zero_or_pos (n % d) with h0 | h0
      · exact absurd (Or.inl (by omega)) hne
      · exact h0
    have hm : n / d ≠ m := by
      intro he
      have := Nat.div_add_mod n d
      rw [he, Nat.mul_comm] at this
      omega
    omega

end Binary64

end Reckoner
