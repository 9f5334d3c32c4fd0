import Mathlib
import Reckoner.Proofs.Binary64.Remainder

/-!
# What Is Rounded to a Double

The numbers of which a given double is the nearest one.

They are an interval around the double (`IsNearestPattern.convex`). It ends at the midpoints to
the neighbours, and whether these belong to it depends on the last bit. So the ends are not the
same for all doubles, but whatever lies between two numbers that are rounded to the
double is rounded to it as well.

No number is far from the double that it is rounded to. Zero is a double too, so the number is
at least half as large, and the next double is at most twice as large
(`IsNearestPattern.magnitude_le`, `IsNearestPattern.two_mul_le`). Zero itself is the
exception, and most of what follows is about the others.

`RoundsTo` says the same of doubles with signs without a word about patterns. It comes down to
patterns if the sign is taken away on both sides (`roundsTo_signed_iff`).

## Main definitions

* `Binary64.RoundsTo`: A number is rounded to a finite double, ties to even.

## Theorems

* `IsNearestPattern.convex`: What is rounded to a pattern is an interval.
* `isNearestPattern_magnitude`: What is a double is rounded to itself.
* `IsNearestPattern.magnitude_le`, `IsNearestPattern.two_mul_le`: How far the interval reaches.
* `pattern_eq_iff`: Which quotients have a given pattern.
* `magnitude_lt_of_mod_ne_zero`, `exists_magnitude_eq`: Which doubles are no integers, and which
  integers are doubles.
* `exists_ofPattern_of_rational?`: The doubles that are rational numbers.
* `roundsTo_signed_iff`: Signs may be taken away on both sides.
* `RoundsTo.unique`: No number is rounded to two doubles, zeros apart.
-/

namespace Reckoner

namespace Binary64

section Patterns

variable {q : ℚ} {body : Nat}

/-- What lies between two numbers that are rounded to a pattern is rounded to it too. -/
theorem IsNearestPattern.convex {low high : ℚ} (hlow : IsNearestPattern low body)
    (hhigh : IsNearestPattern high body) (hle : low ≤ q) (hge : q ≤ high) :
    IsNearestPattern q body where
  above other hother := by
    have hmidpoint := hhigh.above other hother
    linarith
  below other hother := by
    have hmidpoint := hlow.below other hother
    linarith
  even other hother htie := by
    rcases Nat.lt_or_gt_of_ne hother with hless | hgreater
    · have hmidpoint := hlow.below other hless
      exact hlow.even other hother (by linarith)
    · have hmidpoint := hhigh.above other hgreater
      exact hhigh.even other hother (by linarith)

/-- The number of a pattern is rounded to it. -/
theorem isNearestPattern_magnitude (body : Nat) : IsNearestPattern (magnitude body) body where
  above other hother := by
    have hmono := magnitude_strictMono hother
    linarith
  below other hother := by
    have hmono := magnitude_strictMono hother
    linarith
  even other hother htie := by
    refine absurd (magnitude_strictMono.injective ?_) hother
    linarith

theorem magnitude_pos (hne : body ≠ 0) : 0 < magnitude body :=
  div_pos (Nat.cast_pos.mpr (patternUnits_pos hne)) unitsPerOne_pos

section Reach

variable (hne : body ≠ 0) (h : IsNearestPattern q body)
include hne h

/-- A number that is rounded to a pattern is at least half as large. -/
theorem IsNearestPattern.magnitude_le : magnitude body ≤ 2 * q := by
  have hmidpoint := h.below 0 (Nat.pos_of_ne_zero hne)
  rw [magnitude_zero] at hmidpoint
  linarith

/-- It is at most half as large again, since the next pattern is at most twice as large. -/
theorem IsNearestPattern.two_mul_le : 2 * q ≤ 3 * magnitude body := by
  have hunits : patternUnits (body + 1) ≤ 2 * patternUnits body := by
    have hlast : 2 ^ shift body ≤ patternUnits body := by
      rw [patternUnits_eq]
      exact Nat.le_mul_of_pos_left _ (significand_pos hne)
    rw [patternUnits_succ]
    omega
  have hnext : magnitude (body + 1) ≤ 2 * magnitude body := by
    have hcast : (patternUnits (body + 1) : ℚ) ≤ 2 * patternUnits body := by exact_mod_cast hunits
    rw [magnitude, magnitude, ← mul_div_assoc]
    exact div_le_div_of_nonneg_right hcast unitsPerOne_pos.le
  have hmidpoint := h.above (body + 1) (Nat.lt_succ_self body)
  linarith

end Reach

/-- A quotient has the pattern of a finite magnitude if it is rounded to it. -/
theorem pattern_eq_iff {n d : Nat} (hd : 0 < d) (hbody : body < infinityPattern) :
    pattern (n * unitsPerOne) d = body ↔ IsNearestPattern (n / d) body := by
  have hrounded := @isNearestPattern_rounded n d hd
  rw [pattern_eq_min]
  constructor
  · intro hpattern
    have hsame : rounded (n * unitsPerOne) d = body := by omega
    rwa [hsame] at hrounded
  · intro h
    rw [hrounded.unique h]
    exact Nat.min_eq_left (Nat.le_of_lt hbody)

end Patterns

section Integers

variable {body : Nat}

-- The exponent is kept general, since the power is too large to be computed.
theorem exists_unitsPerOne_eq : ∃ n, unitsPerOne = 2 ^ n := by
  unfold unitsPerOne
  generalize 1074 = n
  exact ⟨n, Nat.pow_eq⟩

/-- A magnitude that is no integer is so small that the integers up to its double need no more
    significant bits than a double has. -/
theorem magnitude_lt_of_mod_ne_zero (hmod : patternUnits body % unitsPerOne ≠ 0) :
    magnitude body < fractionSize := by
  rcases exists_unitsPerOne_eq with ⟨n, hone⟩
  have hshift : shift body < n := by
    refine Nat.lt_of_not_le fun hge => hmod ?_
    rw [patternUnits_eq, hone]
    exact Nat.mod_eq_zero_of_dvd (Dvd.dvd.mul_left (Nat.pow_dvd_pow 2 hge) _)
  have hlast : 2 * 2 ^ shift body ≤ unitsPerOne := by
    rw [hone, ← Nat.pow_succ']
    exact Nat.pow_le_pow_right Nat.two_pos hshift
  have hunits : patternUnits body < fractionSize * unitsPerOne := by
    refine Nat.lt_of_mul_lt_mul_left (a := 2) ?_
    calc 2 * patternUnits body
        = significand body * (2 * 2 ^ shift body) := by rw [patternUnits_eq]; ring
      _ ≤ significand body * unitsPerOne := Nat.mul_le_mul_left _ hlast
      _ < 2 * fractionSize * unitsPerOne :=
          Nat.mul_lt_mul_of_pos_right (significand_lt body) zero_lt_unitsPerOne
      _ = 2 * (fractionSize * unitsPerOne) := Nat.mul_assoc _ _ _
  rw [magnitude, div_lt_iff₀ unitsPerOne_pos]
  exact_mod_cast hunits

/-- Integers that need no more of them are magnitudes. -/
theorem exists_magnitude_eq {n : Nat} (hn : n < 2 * fractionSize) :
    ∃ body, magnitude body = n ∧ patternUnits body % unitsPerOne = 0 := by
  rcases exists_unitsPerOne_eq with ⟨k, hone⟩
  rcases exists_patternUnits hn k with ⟨body, hunits⟩
  rw [← hone] at hunits
  refine ⟨body, ?_, ?_⟩
  · rw [magnitude, hunits, Nat.cast_mul, mul_div_cancel_right₀ _ unitsPerOne_pos.ne']
  · rw [hunits, Nat.mul_mod_left]

end Integers

/-- A number is rounded to a finite double: it is not beyond the bound, no finite double is
    closer, and those that are as close leave the tie to its even last bit. -/
def RoundsTo (w : ℚ) (v : Float) : Prop :=
  |w| < overflowBound ∧ ∃ p, rational? v = some p ∧ ∀ y z, rational? y = some z →
    |p - w| ≤ |z - w| ∧ (z ≠ p → |p - w| = |z - w| → v.toBits.toNat % 2 = 0)

section Doubles

variable {negative : Bool} {body : Nat}

theorem signed_signed (negative : Bool) (q : ℚ) : signed negative (signed negative q) = q := by
  cases negative with
  | false => rfl
  | true => exact neg_neg q

-- Signs that are the same do not change a distance.
theorem abs_signed_sub_signed (negative : Bool) (p q : ℚ) :
    |signed negative p - signed negative q| = |p - q| := by
  cases negative with
  | false => rfl
  | true => exact (congrArg abs (neg_sub_neg p q)).trans (abs_sub_comm q p)

-- Every finite double has one with the other sign.
theorem exists_rational?_signed (negative : Bool) {y : Float} {z : ℚ} (h : rational? y = some z) :
    ∃ y', rational? y' = some (signed negative z) := by
  rcases exists_of_rational? h with ⟨other, hother, rfl | rfl⟩
  · exact ⟨_, rational?_signed hother negative⟩
  · cases negative with
    | false => exact ⟨_, h⟩
    | true =>
        refine ⟨_, (rational?_signed hother false).trans ?_⟩
        exact congrArg some (neg_neg _).symm

/-- A double that is a rational number is the sign and the pattern of one. -/
theorem exists_ofPattern_of_rational? {v : Float} {p : ℚ} (h : rational? v = some p) :
    ∃ negative body, body < infinityPattern ∧ v = ofPattern negative body ∧
      p = signed negative (magnitude body) := by
  unfold rational? at h
  split at h
  · rename_i units hparts
    rcases eq_ofPattern_of_parts hparts with ⟨body, hbody, rfl, hv⟩
    exact ⟨false, body, hbody, hv, (Option.some.inj h).symm⟩
  · rename_i units hparts
    rcases eq_ofPattern_of_parts hparts with ⟨body, hbody, rfl, hv⟩
    exact ⟨true, body, hbody, hv, (Option.some.inj h).symm⟩
  · cases h

theorem toBits_ofPattern_mod_two (h : body < infinityPattern) :
    (ofPattern negative body).toBits.toNat % 2 = body % 2 := by
  rcases sizes_eq with ⟨-, -, hweight⟩
  rw [toBits_ofPattern (Nat.le_of_lt h), hweight]
  omega

/-- Signs may be taken away on both sides, and what is left is rounded to the pattern. -/
theorem roundsTo_signed_iff (h : body < infinityPattern) (hne : body ≠ 0) {w : ℚ} :
    RoundsTo (signed negative w) (ofPattern negative body)
      ↔ 0 ≤ w ∧ IsNearestPattern w body := by
  have hp := rational?_signed h negative
  constructor
  · rintro ⟨hbound, p, hp', hclosest⟩
    rw [hp, Option.some.injEq] at hp'
    subst hp'
    have hpattern : ∀ other, other < infinityPattern →
        |magnitude body - w| ≤ |magnitude other - w| ∧
          (other ≠ body → |magnitude body - w| = |magnitude other - w| → body % 2 = 0) := by
      intro other hother
      rcases hclosest _ _ (rational?_signed hother negative) with ⟨hle, htie⟩
      rw [abs_signed_sub_signed, abs_signed_sub_signed] at hle htie
      rw [toBits_ofPattern_mod_two h] at htie
      refine ⟨hle, fun hother => htie fun hsame => hother ?_⟩
      have hsigned := congrArg (signed negative) hsame
      rw [signed_signed, signed_signed] at hsigned
      exact magnitude_strictMono.injective hsigned
    have hzero := (hpattern 0 (by decide)).1
    have hpos := magnitude_pos hne
    rw [magnitude_zero] at hzero
    have hw : 0 ≤ w := by
      have hmidpoint := (abs_sub_le_abs_sub_iff hpos w).2.mp hzero
      linarith
    rw [abs_signed, abs_of_nonneg hw] at hbound
    exact ⟨hw, isNearestPattern_of_dist h hbound hpattern⟩
  · rintro ⟨hw, hnearest⟩
    have hbound : w < overflowBound := by
      refine lt_of_not_ge fun hge => ?_
      exact Nat.not_le_of_lt h (hnearest.infinityPattern_le_iff.mpr hge)
    refine ⟨?_, _, hp, fun y z hz => ?_⟩
    · rw [abs_signed, abs_of_nonneg hw]
      exact hbound
    · rcases exists_rational?_signed negative hz with ⟨y', hy'⟩
      rcases hnearest.dist_le_rational hw hy' with ⟨hle, htie⟩
      have hdist : |z - signed negative w| = |signed negative z - w| := by
        rw [← abs_signed_sub_signed negative z, signed_signed]
      rw [abs_signed_sub_signed, hdist, toBits_ofPattern_mod_two h]
      refine ⟨hle, fun hother => htie fun hsame => hother ?_⟩
      rw [← hsame, signed_signed]

-- The sign of what is rounded to a double is that of the double.
theorem RoundsTo.pos_of_signed (h : body < infinityPattern) (hne : body ≠ 0) {w : ℚ}
    (hrounds : RoundsTo w (ofPattern negative body)) :
    0 < signed negative w ∧ IsNearestPattern (signed negative w) body := by
  rw [← signed_signed negative w, roundsTo_signed_iff h hne] at hrounds
  have hhalf := hrounds.2.magnitude_le hne
  have hpos := magnitude_pos hne
  exact ⟨by linarith, hrounds.2⟩

/-- No number is rounded to two doubles that are not zero. -/
theorem RoundsTo.unique {negative' : Bool} {body' : Nat} (h : body < infinityPattern)
    (h' : body' < infinityPattern) (hne : body ≠ 0) (hne' : body' ≠ 0) {w : ℚ}
    (hrounds : RoundsTo w (ofPattern negative body))
    (hrounds' : RoundsTo w (ofPattern negative' body')) :
    ofPattern negative body = ofPattern negative' body' := by
  rcases hrounds.pos_of_signed h hne with ⟨hpos, hnearest⟩
  rcases hrounds'.pos_of_signed h' hne' with ⟨hpos', hnearest'⟩
  have hsign : negative = negative' := by
    cases negative with
    | false => cases negative' with
      | false => rfl
      | true => exact absurd hpos' (not_lt_of_ge (neg_nonpos_of_nonneg hpos.le))
    | true => cases negative' with
      | false => exact absurd hpos (not_lt_of_ge (neg_nonpos_of_nonneg hpos'.le))
      | true => rfl
  subst hsign
  rw [hnearest.unique hnearest']

end Doubles

end Binary64

end Reckoner
