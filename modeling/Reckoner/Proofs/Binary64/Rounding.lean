import Reckoner.Proofs.Binary64.Order

/-!
# Rounding and the Midpoints

A quotient is rounded to the pattern whose midpoints it lies between.

Patterns are counted through as if the exponent field and the significant bits were one
number, and from each of them to the next the units grow by one in the last of the
significant bits (`patternUnits_succ`). So patterns and units go up together, and
this holds beyond the pattern of the infinity too, which would be the next power of two if it
were a number. `rounded` is the rounding into this scale without an end; what is rounded
for good is cut off at the infinity (`pattern_eq_min`).

In between two patterns their midpoint decides. Rounding a quotient to its leading bits is
rounding to an integer, and the midpoints of the integers are those of the patterns as long as
the neighbour has as many zeros behind its significant bits. It has one less right below
a power of two, and there a quotient that is rounded to that power lies above it anyway. So
the midpoints are never passed, and one that is met belongs to the even neighbour
(`two_mul_le_rounded`, `rounded_mul_le`).

## Main definitions

* `Binary64.rounded`: The pattern that a quotient would be rounded to if there were no
  infinity.

## Theorems

* `two_mul_le_roundHalfEven`, `roundHalfEven_mul_le`: Rounding to integers and the midpoints.
* `patternUnits_mul_add`, `patternUnits_mul_add_of_le`: The units by zeros and leading bits.
* `patternUnits_succ`, `patternUnits_strictMono`: From one pattern to the next.
* `exists_rounded`: What rounding cuts off and what it leaves.
* `two_mul_le_rounded`, `rounded_mul_le`: The midpoints above and below what is rounded to.
-/

namespace Reckoner

namespace Binary64

section Integers

variable {n d : Nat}

theorem le_roundHalfEven : n / d ≤ roundHalfEven n d := by
  simp only [roundHalfEven]
  split
  · exact Nat.le_refl _
  · exact Nat.le_succ _

variable (hd : 0 < d)
include hd

/-- A quotient does not pass the midpoint above the integer that it is rounded to, and it meets
    the midpoint only if that integer is even. -/
theorem two_mul_le_roundHalfEven :
    2 * n ≤ (2 * roundHalfEven n d + 1) * d ∧
      (2 * n = (2 * roundHalfEven n d + 1) * d → roundHalfEven n d % 2 = 0) := by
  have hn : n / d * d + n % d = n := Nat.div_add_mod' n d
  have hrest : n % d < d := Nat.mod_lt n hd
  have hdown : (2 * (n / d) + 1) * d = 2 * (n / d * d) + d := by ring
  have hup : (2 * (n / d + 1) + 1) * d = 2 * (n / d * d) + 3 * d := by ring
  simp only [roundHalfEven]
  split
  · exact ⟨by omega, fun h => by omega⟩
  · exact ⟨by omega, fun h => by omega⟩

/-- Nor does it pass the midpoint below. -/
theorem roundHalfEven_mul_le :
    2 * roundHalfEven n d * d ≤ 2 * n + d ∧
      (2 * roundHalfEven n d * d = 2 * n + d → roundHalfEven n d % 2 = 0) := by
  have hn : n / d * d + n % d = n := Nat.div_add_mod' n d
  have hrest : n % d < d := Nat.mod_lt n hd
  have hdown : 2 * (n / d) * d = 2 * (n / d * d) := by ring
  have hup : 2 * (n / d + 1) * d = 2 * (n / d * d) + 2 * d := by ring
  simp only [roundHalfEven]
  split
  · exact ⟨by omega, fun h => by omega⟩
  · exact ⟨by omega, fun h => by omega⟩

end Integers

-- The last bit of a pattern is the last of its significant bits.
theorem mul_fractionSize_add_mod_two (k m : Nat) : (k * fractionSize + m) % 2 = m % 2 := by
  rcases sizes_eq with ⟨hfraction, -, -⟩
  rw [hfraction]
  omega

section Fields

variable {k m : Nat} (hk : k = 0 ∨ fractionSize ≤ m)
include hk

theorem le_shift : k ≤ shift (k * fractionSize + m) := by
  rcases sizes_eq with ⟨hfraction, -, -⟩
  rw [shift]
  rw [hfraction] at hk ⊢
  omega

/-- The pattern of leading bits with zeros behind them has the units that these are. -/
theorem patternUnits_mul_add (hm : m < 2 * fractionSize) :
    patternUnits (k * fractionSize + m) = m * 2 ^ k := by
  have hshift : shift (k * fractionSize + m) = k := by
    refine Nat.le_antisymm ?_ (le_shift hk)
    rcases sizes_eq with ⟨hfraction, -, -⟩
    rw [shift]
    rw [hfraction] at hm ⊢
    omega
  have hsignificand := shift_mul_add_significand (k * fractionSize + m)
  rw [hshift, Nat.add_left_cancel_iff] at hsignificand
  rw [patternUnits_eq, hshift, hsignificand]

/-- This is so even if the leading bits carry over into the next exponent. -/
theorem patternUnits_mul_add_of_le (hm : m ≤ 2 * fractionSize) :
    patternUnits (k * fractionSize + m) = m * 2 ^ k := by
  rcases Nat.lt_or_eq_of_le hm with hless | rfl
  · exact patternUnits_mul_add hk hless
  · have hcarry : k * fractionSize + 2 * fractionSize
        = (k + 1) * fractionSize + fractionSize := by ring
    have hless : fractionSize < 2 * fractionSize := by decide
    rw [hcarry, patternUnits_mul_add (Or.inr le_rfl) hless]
    ring

end Fields

/-- From one pattern to the next the last significant bit is counted up. -/
theorem patternUnits_succ (body : Nat) :
    patternUnits (body + 1) = patternUnits body + 2 ^ shift body := by
  have hk : shift body = 0 ∨ fractionSize ≤ significand body :=
    (Nat.eq_zero_or_pos _).imp_right le_significand
  have hnext : body + 1 = shift body * fractionSize + (significand body + 1) := by
    rw [← Nat.add_assoc, shift_mul_add_significand]
  rw [hnext, patternUnits_mul_add_of_le (hk.imp_right Nat.le_succ_of_le) (significand_lt body),
    patternUnits_eq, Nat.succ_mul]

theorem patternUnits_strictMono : StrictMono patternUnits := by
  refine strictMono_nat_of_lt_succ fun body => ?_
  rw [patternUnits_succ]
  exact Nat.lt_add_of_pos_right (Nat.two_pow_pos _)

/-- The pattern that a quotient of units would be rounded to if the patterns of numbers never
    ended. -/
def rounded (n d : Nat) : Nat :=
  let cut := (n / d).log2 - 52
  cut * fractionSize + roundHalfEven n (d * Nat.pow 2 cut)

theorem pattern_eq_min (n d : Nat) : pattern n d = min (rounded n d) infinityPattern :=
  rfl

section Rounded

variable {n d : Nat} (hd : 0 < d)
include hd

/-- What rounding leaves needs at most 53 bits, or is the power of two after these. If
    anything is cut off, then all of the bits are needed. -/
theorem exists_rounded :
    ∃ k m, rounded n d = k * fractionSize + m ∧ m = roundHalfEven n (d * 2 ^ k) ∧
      m ≤ 2 * fractionSize ∧ (k = 0 ∨ fractionSize ≤ m ∧ fractionSize * (d * 2 ^ k) ≤ n) := by
  have hsize : fractionSize = 2 ^ 52 := rfl
  refine ⟨(n / d).log2 - 52, _, rfl, rfl, ?_, ?_⟩
  · have hless : n / d < 2 ^ (53 + ((n / d).log2 - 52)) :=
      Nat.lt_of_lt_of_le Nat.lt_log2_self (Nat.pow_le_pow_right Nat.two_pos (by omega))
    refine roundHalfEven_le (Nat.mul_pos hd (Nat.two_pow_pos _)) ?_
    calc n ≤ 2 ^ (53 + ((n / d).log2 - 52)) * d :=
          Nat.le_of_lt ((Nat.div_lt_iff_lt_mul hd).mp hless)
      _ = 2 * fractionSize * (d * 2 ^ ((n / d).log2 - 52)) := by rw [hsize]; ring
  · rcases Nat.eq_zero_or_pos ((n / d).log2 - 52) with hzero | hpos
    · exact Or.inl hzero
    · have hne : n / d ≠ 0 := by
        intro hzero
        rw [hzero, Nat.log2_zero] at hpos
        omega
      have hquotient : 2 ^ (52 + ((n / d).log2 - 52)) ≤ n / d := by
        rw [Nat.add_sub_of_le (by omega)]
        exact Nat.log2_self_le hne
      have hlow : fractionSize * (d * 2 ^ ((n / d).log2 - 52)) ≤ n := by
        calc fractionSize * (d * 2 ^ ((n / d).log2 - 52))
            = 2 ^ (52 + ((n / d).log2 - 52)) * d := by rw [hsize]; ring
          _ ≤ n := (Nat.le_div_iff_mul_le hd).mp hquotient
      have hscaled : fractionSize ≤ n / (d * 2 ^ ((n / d).log2 - 52)) :=
        (Nat.le_div_iff_mul_le (Nat.mul_pos hd (Nat.two_pow_pos _))).mpr hlow
      exact Or.inr ⟨hscaled.trans le_roundHalfEven, hlow⟩

/-- A quotient does not pass the midpoint above the pattern that it is rounded to, and it meets
    the midpoint only if that pattern is even. -/
theorem two_mul_le_rounded :
    2 * n ≤ (patternUnits (rounded n d) + patternUnits (rounded n d + 1)) * d ∧
      (2 * n = (patternUnits (rounded n d) + patternUnits (rounded n d + 1)) * d →
        rounded n d % 2 = 0) := by
  rcases @exists_rounded n d hd with ⟨k, m, hrounded, hm, hmle, hk⟩
  have hk' := hk.imp_right And.left
  rcases @two_mul_le_roundHalfEven n (d * 2 ^ k) (Nat.mul_pos hd (Nat.two_pow_pos k)) with
    ⟨hle, htie⟩
  rw [← hm] at hle htie
  have hstep : 2 ^ k ≤ 2 ^ shift (rounded n d) := by
    rw [hrounded]
    exact Nat.pow_le_pow_right Nat.two_pos (le_shift hk')
  have hbound : (2 * m + 1) * (d * 2 ^ k)
      ≤ (patternUnits (rounded n d) + patternUnits (rounded n d + 1)) * d := by
    rw [patternUnits_succ, hrounded, patternUnits_mul_add_of_le hk' hmle, ← hrounded]
    calc (2 * m + 1) * (d * 2 ^ k)
        = (m * 2 ^ k + (m * 2 ^ k + 2 ^ k)) * d := by ring
      _ ≤ (m * 2 ^ k + (m * 2 ^ k + 2 ^ shift (rounded n d))) * d :=
          Nat.mul_le_mul_right d (by omega)
  refine ⟨hle.trans hbound, fun h => ?_⟩
  rw [hrounded, mul_fractionSize_add_mod_two]
  exact htie (Nat.le_antisymm hle (h ▸ hbound))

/-- Nor does it pass the midpoint below. -/
theorem rounded_mul_le {body : Nat} (hbody : body + 1 = rounded n d) :
    (patternUnits body + patternUnits (rounded n d)) * d ≤ 2 * n ∧
      ((patternUnits body + patternUnits (rounded n d)) * d = 2 * n → rounded n d % 2 = 0) := by
  rcases @exists_rounded n d hd with ⟨k, m, hrounded, hm, hmle, hk⟩
  have hunits : patternUnits (rounded n d) = m * 2 ^ k := by
    rw [hrounded, patternUnits_mul_add_of_le (hk.imp_right And.left) hmle]
  have hstep : patternUnits (rounded n d) = patternUnits body + 2 ^ shift body := by
    rw [← hbody, patternUnits_succ]
  by_cases hshift : k ≤ shift body
  · rcases @roundHalfEven_mul_le n (d * 2 ^ k) (Nat.mul_pos hd (Nat.two_pow_pos k)) with
      ⟨hle, htie⟩
    rw [← hm] at hle htie
    have hbound : (patternUnits body + patternUnits (rounded n d)) * d + d * 2 ^ k
        ≤ 2 * m * (d * 2 ^ k) := by
      calc (patternUnits body + patternUnits (rounded n d)) * d + d * 2 ^ k
          = (patternUnits body + 2 ^ k + patternUnits (rounded n d)) * d := by ring
        _ ≤ (patternUnits body + 2 ^ shift body + patternUnits (rounded n d)) * d := by
            gcongr
            exact Nat.two_pos
        _ = 2 * m * (d * 2 ^ k) := by rw [← hstep, hunits]; ring
    refine ⟨by omega, fun h => ?_⟩
    rw [hrounded, mul_fractionSize_add_mod_two]
    exact htie (by omega)
  · -- Only a power of two has more zeros than the pattern right below it.
    have hpower : m ≤ fractionSize := by
      refine Nat.le_of_not_lt fun hless => hshift ?_
      have hpred : body = k * fractionSize + (m - 1) := by omega
      rw [hpred]
      exact le_shift (Or.inr (Nat.le_sub_one_of_lt hless))
    -- The quotient is that power or lies above it.
    have hlow : patternUnits (rounded n d) * d ≤ n := by
      rcases hk with hzero | ⟨-, hlow⟩
      · omega
      · calc patternUnits (rounded n d) * d
            = m * (d * 2 ^ k) := by rw [hunits]; ring
          _ ≤ fractionSize * (d * 2 ^ k) := Nat.mul_le_mul_right _ hpower
          _ ≤ n := hlow
    have hless : patternUnits body * d < patternUnits (rounded n d) * d := by
      rw [← hbody]
      exact Nat.mul_lt_mul_of_pos_right (patternUnits_strictMono (Nat.lt_succ_self body)) hd
    rw [Nat.add_mul]
    exact ⟨by omega, fun h => by omega⟩

end Rounded

end Binary64

end Reckoner
