import Mathlib.Algebra.Ring.Nat
import Reckoner.Binary64.Basic

/-!
# Patterns and Units

That rounding finds a double again that is there.

`pattern` rounds a quotient of units to the pattern of a double, and `patternUnits` counts
the units of a pattern. These are its significant bits with as many zeros behind them as its
exponent field says (`patternUnits_eq`), and the two numbers together are the pattern
again (`shift_mul_add_significand`). Rounding cuts off exactly those zeros, so on the
patterns of finite doubles it undoes the counting (`pattern_patternUnits`).

A pattern depends on the quotient alone and not on how it is written as a
numerator and a denominator (`pattern_eq_of_mul_eq_mul`). A decimal that is read may
therefore be compared with one that was printed although the two come as different
quotients.

## Main definitions

* `Binary64.significand`, `Binary64.shift`: The significant bits of a pattern and the zeros
  behind them.

## Theorems

* `roundHalfEven_mul_left`, `pattern_mul_left`: Common factors make no difference.
* `pattern_eq_of_mul_eq_mul`: Equal quotients have equal patterns.
* `patternUnits_eq`, `shift_mul_add_significand`: The units and the pattern by the two
  numbers.
* `log2_patternUnits_sub`: What rounding cuts off are the zeros.
* `pattern_patternUnits`: The units of a pattern are rounded to the pattern.
-/

namespace Reckoner

namespace Binary64

theorem roundHalfEven_mul_left {c : Nat} (hc : 0 < c) (n d : Nat) :
    roundHalfEven (c * n) (c * d) = roundHalfEven n d := by
  have hless : ∀ r, 2 * (c * r) < c * d ↔ 2 * r < d := by
    intro r
    rw [Nat.mul_left_comm, Nat.mul_lt_mul_left hc]
  have hsame : ∀ r, 2 * (c * r) = c * d ↔ 2 * r = d := by
    intro r
    rw [Nat.mul_left_comm, Nat.mul_left_cancel_iff hc]
  simp only [roundHalfEven, Nat.mul_div_mul_left n d hc, Nat.mul_mod_mul_left, hless, hsame]

theorem pattern_mul_left {c : Nat} (hc : 0 < c) (n d : Nat) :
    pattern (c * n) (c * d) = pattern n d := by
  simp only [pattern, Nat.mul_div_mul_left n d hc, Nat.mul_assoc, roundHalfEven_mul_left hc]

/-- Equal quotients have equal patterns. -/
theorem pattern_eq_of_mul_eq_mul {n d n' d' : Nat} (hd : 0 < d) (hd' : 0 < d')
    (h : n * d' = n' * d) : pattern n d = pattern n' d' := by
  calc pattern n d
      = pattern (d' * n) (d' * d) := (pattern_mul_left hd' n d).symm
    _ = pattern (d * n') (d * d') := by
        rw [Nat.mul_comm d' n, h, Nat.mul_comm n' d, Nat.mul_comm d' d]
    _ = pattern n' d' := pattern_mul_left hd n' d'

/-- The significant bits of a pattern. -/
def significand (body : Nat) : Nat :=
  if body / fractionSize = 0 then body % fractionSize else fractionSize + body % fractionSize

/-- The zeros that its units have behind the significant bits. -/
def shift (body : Nat) : Nat :=
  body / fractionSize - 1

theorem patternUnits_eq (body : Nat) :
    patternUnits body = significand body * 2 ^ shift body := by
  rw [patternUnits, significand, shift]
  by_cases hsubnormal : body / fractionSize = 0
  · rw [if_pos hsubnormal, if_pos hsubnormal, hsubnormal, Nat.zero_sub, Nat.pow_zero, Nat.mul_one]
  · rw [if_neg hsubnormal, if_neg hsubnormal]
    rfl

theorem significand_lt (body : Nat) : significand body < 2 * fractionSize := by
  have hfraction : body % fractionSize < fractionSize := Nat.mod_lt body (Nat.two_pow_pos 52)
  rw [significand]
  split
  · omega
  · omega

theorem le_significand {body : Nat} (h : 0 < shift body) : fractionSize ≤ significand body := by
  rw [shift] at h
  rw [significand, if_neg (by omega)]
  exact Nat.le_add_right _ _

-- Zeros and significant bits, one above the other, are the pattern. The leading bit of a
-- normal number makes up for the zero that its exponent has too much.
theorem shift_mul_add_significand (body : Nat) :
    shift body * fractionSize + significand body = body := by
  have hbody : body / fractionSize * fractionSize + body % fractionSize = body :=
    Nat.div_add_mod' body fractionSize
  rw [shift, significand]
  split
  · rename_i hsubnormal
    rw [hsubnormal] at hbody ⊢
    exact hbody
  · rename_i hnormal
    rw [← Nat.add_assoc, ← Nat.succ_mul, Nat.succ_eq_add_one,
      Nat.sub_add_cancel (Nat.pos_of_ne_zero hnormal)]
    exact hbody

-- Of a number that needs at most 53 bits nothing is cut off.
theorem log2_sub_eq_zero {n : Nat} (h : n < 2 * fractionSize) : n.log2 - 52 = 0 := by
  have hfraction : 2 * fractionSize = 2 ^ 53 := rfl
  by_cases hn : n = 0
  · rw [hn]
    rfl
  · rw [hfraction] at h
    have hlog := (Nat.log2_lt hn).mpr h
    omega

-- A number that needs all 53 bits, with zeros behind them.
theorem log2_mul_two_pow {m : Nat} (hlow : fractionSize ≤ m) (hhigh : m < 2 * fractionSize)
    (k : Nat) : (m * 2 ^ k).log2 = 52 + k := by
  have hfraction : fractionSize = 2 ^ 52 := rfl
  have hpos : 0 < 2 ^ k := Nat.two_pow_pos k
  rw [hfraction] at hlow hhigh
  have hm : 0 < m := Nat.lt_of_lt_of_le (Nat.two_pow_pos 52) hlow
  have hne : m * 2 ^ k ≠ 0 := Nat.ne_of_gt (Nat.mul_pos hm hpos)
  refine (Nat.log2_eq_iff hne).mpr ⟨?_, ?_⟩
  · rw [Nat.pow_add]
    exact Nat.mul_le_mul_right _ hlow
  · rw [Nat.add_right_comm, Nat.pow_add, Nat.pow_succ 2 52, Nat.mul_comm (2 ^ 52) 2]
    exact Nat.mul_lt_mul_of_pos_right hhigh hpos

-- What rounding cuts off are the zeros.
theorem log2_patternUnits_sub (body : Nat) : (patternUnits body).log2 - 52 = shift body := by
  rw [patternUnits_eq]
  by_cases hzeros : 0 < shift body
  · rw [log2_mul_two_pow (le_significand hzeros) (significand_lt body)]
    omega
  · have hnone : shift body = 0 := by omega
    rw [hnone, Nat.pow_zero, Nat.mul_one]
    exact log2_sub_eq_zero (significand_lt body)

/-- The units of the pattern of a finite double are rounded to that pattern. -/
theorem pattern_patternUnits {body : Nat} (h : body < infinityPattern) :
    pattern (patternUnits body) 1 = body := by
  have hround : roundHalfEven (patternUnits body) (1 * Nat.pow 2 (shift body))
      = significand body := by
    have hscaled := roundHalfEven_mul_left (Nat.two_pow_pos (shift body)) (significand body) 1
    rw [Nat.mul_one, roundHalfEven_one] at hscaled
    rw [patternUnits_eq, Nat.mul_comm, Nat.one_mul]
    exact hscaled
  rw [pattern, Nat.div_one, log2_patternUnits_sub, hround, shift_mul_add_significand]
  exact Nat.min_eq_left (Nat.le_of_lt h)

end Binary64

end Reckoner
