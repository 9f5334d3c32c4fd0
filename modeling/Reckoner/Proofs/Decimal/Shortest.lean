import Mathlib
import Reckoner.Proofs.Binary64.Range
import Reckoner.Proofs.Decimal.Search

/-!
# The Shortest Decimal Is the Shortest

Of all decimals that are rounded to a double, `shortest` finds one with the fewest significant
digits, and of those with as many one that is closest to the double.

The search knows nothing of doubles, and what it has been shown to achieve holds for every test
that is passed by a range of numbers. Being read back as a double is such a test, since
numbers that are rounded to the same double are an interval (`isRange_readsBack`).

The competitors are decimals of any exponent, and those finer than the finest grid are no
numbers of steps. They need not be tried: a number is at least half as large as the double
that it is rounded to, so a decimal with places that fine has at least as many digits as the
number of steps, and that one is the double itself (`exists_steps`).

The hypothesis of the search about the power of ten above the number is about the
smallest doubles only. If it did not hold, then the interval would reach further up than a
twentieth of the number, and the significand would be a single digit. For these it can be
computed (`reach_of_units_lt_ten`).

## Main definitions

* `Decimal.value`: The rational number that a decimal is.
* `Decimal.HasDigits`: A number has no more than so many significant digits.
* `Decimal.IsShortest`: A decimal that is rounded to a double, with the fewest digits and as
  close as any.

## Theorems

* `readsBack_iff`: What the test tests.
* `isRange_readsBack`: What passes the test is a range.
* `reach_of_readsBack`: How far up the range reaches.
* `exists_steps`, `exists_steps_of_roundsTo`: What the competitors are on the grids.
* `isCoarsest_shortest`, `shortest_digits`, `isNearestPattern_shortest`: What is found.
* `isShortest_shortest`: It is the shortest.
-/

namespace Reckoner

namespace Decimal

open Binary64 (pattern patternUnits unitsPerOne ofPattern magnitude infinityPattern rational?
  signed significand shift fractionSize RoundsTo IsNearestPattern)

/-- The rational number that a decimal is. -/
def value (d : Decimal) : ℚ :=
  d.digits * 10 ^ d.exponent

theorem value_nonneg (d : Decimal) : 0 ≤ d.value :=
  mul_nonneg (Nat.cast_nonneg _) (zpow_nonneg (by decide) _)

/-- A number can be written with so many significant digits, behind a sign and with any
    exponent. -/
def HasDigits (k : Nat) (w : ℚ) : Prop :=
  ∃ (n : Nat) (e : ℤ), n < Nat.pow 10 k ∧ |w| = n * 10 ^ e

/-- A decimal is rounded to a finite double, none that is has fewer significant digits, and
    none that has no more of them is closer. -/
structure IsShortest (w : ℚ) (v : Float) : Prop where
  rounds : RoundsTo w v
  decimal : ∃ k, HasDigits k w
  fewest : ∀ w' k, RoundsTo w' v → HasDigits k w' → HasDigits k w
  closest : ∀ w' p, rational? v = some p → RoundsTo w' v →
    (∀ k, HasDigits k w → HasDigits k w') → |w - p| ≤ |w' - p|

/-- The rational number of so many steps. -/
def ofSteps (steps : Nat) : ℚ :=
  steps / (Nat.pow 10 places : ℕ)

section Steps

variable {n m : Nat}

theorem one_steps_pos : (0 : ℚ) < (Nat.pow 10 places : ℕ) :=
  Nat.cast_pos.mpr (pow_ten_pos places)

theorem ofSteps_le_iff : ofSteps n ≤ ofSteps m ↔ n ≤ m := by
  rw [ofSteps, ofSteps, div_le_div_iff_of_pos_right one_steps_pos, Nat.cast_le]

/-- The digits of a grid point and its steps are the same number. -/
theorem value_eq_ofSteps (digits grid : Nat) :
    value ⟨digits, (grid : Int) - places⟩ = ofSteps (digits * Nat.pow 10 grid) := by
  rw [value, ofSteps, zpow_sub₀ (by decide), zpow_natCast, zpow_natCast, Nat.cast_mul,
    mul_div_assoc, Nat.pow_eq, Nat.pow_eq, Nat.cast_pow, Nat.cast_pow, Nat.cast_ofNat]

theorem cast_dist (n m : Nat) : (Nat.dist n m : ℚ) = |(n : ℚ) - m| := by
  rcases Nat.le_total n m with hle | hge
  · rw [Nat.dist_eq_sub_of_le hle, Nat.cast_sub hle, abs_sub_comm,
      abs_of_nonneg (sub_nonneg.mpr (Nat.cast_le.mpr hle))]
  · rw [Nat.dist_eq_sub_of_le_right hge, Nat.cast_sub hge,
      abs_of_nonneg (sub_nonneg.mpr (Nat.cast_le.mpr hge))]

theorem dist_le_dist_iff {steps : Nat} : |ofSteps n - ofSteps steps| ≤ |ofSteps m - ofSteps steps|
    ↔ Nat.dist n steps ≤ Nat.dist m steps := by
  have hdist : ∀ n m, |ofSteps n - ofSteps m| = Nat.dist n m / (Nat.pow 10 places : ℕ) := by
    intro n m
    rw [ofSteps, ofSteps, ← sub_div, abs_div, abs_of_pos one_steps_pos, cast_dist]
  rw [hdist, hdist, div_le_div_iff_of_pos_right one_steps_pos, Nat.cast_le]

end Steps

section Units

variable {body : Nat}

/-- The magnitude of a pattern in steps. -/
theorem magnitude_eq_ofSteps (body : Nat) :
    magnitude body = ofSteps (patternUnits body * stepsPerUnit) := by
  have hsteps : (stepsPerUnit : ℚ) ≠ 0 := Nat.cast_ne_zero.mpr (Nat.ne_of_gt stepsPerUnit_pos)
  rw [ofSteps, ← unitsPerOne_mul_stepsPerUnit, Nat.cast_mul, Nat.cast_mul,
    mul_div_mul_right _ _ hsteps, magnitude]

variable (hbody : body < infinityPattern)
include hbody

/-- A number of steps is read back as a pattern if it is rounded to it. -/
theorem readsBack_iff (n : Nat) :
    readsBack body n = true ↔ IsNearestPattern (ofSteps n) body := by
  rw [readsBack, beq_iff_eq, ofSteps, ← Binary64.pattern_eq_iff (pow_ten_pos places) hbody,
    ← unitsPerOne_mul_stepsPerUnit, Nat.mul_comm n,
    Binary64.pattern_mul_left Binary64.zero_lt_unitsPerOne]

variable (hne : body ≠ 0)
include hne

/-- What is read back as a pattern is a range around its steps. -/
theorem isRange_readsBack : IsRange (readsBack body) (patternUnits body * stepsPerUnit) where
  self := by
    rw [readsBack_iff hbody, ← magnitude_eq_ofSteps]
    exact Binary64.isNearestPattern_magnitude body
  zero := by
    rw [← Bool.not_eq_true, readsBack_iff hbody]
    intro hnearest
    have hzero : ofSteps 0 = 0 := by rw [ofSteps, Nat.cast_zero, zero_div]
    have hhalf := hnearest.magnitude_le hne
    have hpos := Binary64.magnitude_pos hne
    rw [hzero] at hhalf
    linarith
  convex := by
    intro low n high hlow hhigh hle hge
    rw [readsBack_iff hbody] at hlow hhigh ⊢
    exact hlow.convex hhigh (ofSteps_le_iff.mpr hle) (ofSteps_le_iff.mpr hge)

/-- A decimal that is rounded to a pattern is a point of some grid, or one with no more digits is,
    which is at least as close. -/
theorem exists_steps {w : ℚ} {k : Nat} (hw : 0 ≤ w) (hnearest : IsNearestPattern w body)
    (hdigits : HasDigits k w) :
    ∃ m grid, m < Nat.pow 10 k ∧ readsBack body (m * Nat.pow 10 grid) = true ∧
      |ofSteps (m * Nat.pow 10 grid) - magnitude body| ≤ |w - magnitude body| := by
  rcases hdigits with ⟨n, e, hn, habs⟩
  rw [abs_of_nonneg hw] at habs
  rcases le_or_gt (-(places : Int)) e with hcoarse | hfine
  · -- The decimal is a point of a grid itself.
    have hgrid : e = ((e + places).toNat : Int) - places := by omega
    have hvalue : w = ofSteps (n * Nat.pow 10 (e + places).toNat) := by
      rw [← value_eq_ofSteps, value, ← hgrid]
      exact habs
    refine ⟨n, (e + places).toNat, hn, ?_, ?_⟩
    · rw [readsBack_iff hbody, ← hvalue]
      exact hnearest
    · rw [← hvalue]
  · -- The steps of the double are on the finest grid, and there are fewer of them than that.
    have hself := (isRange_readsBack hbody hne).self
    have hone : patternUnits body * stepsPerUnit * Nat.pow 10 0
        = patternUnits body * stepsPerUnit := Nat.mul_one _
    have hfew : patternUnits body * stepsPerUnit ≤ n := by
      have hhalf := hnearest.magnitude_le hne
      rw [magnitude_eq_ofSteps, ofSteps, div_le_iff₀ one_steps_pos, habs] at hhalf
      have htenth : (10 : ℚ) ^ e * (Nat.pow 10 places : ℕ) ≤ 10⁻¹ := by
        rw [Nat.pow_eq, Nat.cast_pow, Nat.cast_ofNat, ← zpow_natCast, ← zpow_add₀ (by decide),
          ← zpow_neg_one]
        exact zpow_le_zpow_right₀ (by decide) (by omega)
      have hn : (0 : ℚ) ≤ n := Nat.cast_nonneg n
      have hprod := mul_le_mul_of_nonneg_left htenth hn
      have hle : ((patternUnits body * stepsPerUnit : ℕ) : ℚ) ≤ n := by linarith
      exact Nat.cast_le.mp hle
    refine ⟨patternUnits body * stepsPerUnit, 0, Nat.lt_of_le_of_lt hfew hn, ?_, ?_⟩
    · rw [hone]
      exact hself
    · rw [hone, ← magnitude_eq_ofSteps, sub_self, abs_zero]
      exact abs_nonneg _

omit hne in
/-- The range does not pass the midpoint to the next pattern. -/
theorem two_mul_le_of_readsBack {n : Nat} (h : readsBack body n = true) :
    2 * n ≤ (2 * patternUnits body + 2 ^ shift body) * stepsPerUnit := by
  rw [readsBack_iff hbody] at h
  have habove := h.above (body + 1) (Nat.lt_succ_self body)
  rw [magnitude_eq_ofSteps, magnitude_eq_ofSteps, ofSteps, ofSteps, ofSteps, ← add_div,
    ← mul_div_assoc, div_le_div_iff_of_pos_right one_steps_pos,
    Binary64.patternUnits_succ] at habove
  have hmidpoint : 2 * n
      ≤ patternUnits body * stepsPerUnit + (patternUnits body + 2 ^ shift body) * stepsPerUnit := by
    exact_mod_cast habove
  rwa [← Nat.add_mul, ← Nat.add_assoc, ← Nat.two_mul] at hmidpoint

-- The doubles with a single significant digit in their units.
omit hbody hne in
theorem reach_of_units_lt_ten : ∀ units < 10, 0 < units →
    2 * Nat.pow 10 (digitsOf (units * stepsPerUnit)).length ≤ (2 * units + 1) * stepsPerUnit →
    19 * Nat.pow 10 (digitsOf (units * stepsPerUnit)).length ≤ 20 * (units * stepsPerUnit) := by
  decide +kernel

/-- The range does not reach far beyond the next power of ten. -/
theorem reach_of_readsBack
    (h : readsBack body (Nat.pow 10 (digitsOf (patternUnits body * stepsPerUnit)).length) = true) :
    19 * Nat.pow 10 (digitsOf (patternUnits body * stepsPerUnit)).length
      ≤ 20 * (patternUnits body * stepsPerUnit) := by
  have hmidpoint := two_mul_le_of_readsBack hbody h
  have hunits := Binary64.patternUnits_eq body
  by_cases hten : 10 ≤ significand body
  · have hlast : 10 * 2 ^ shift body ≤ patternUnits body := by
      rw [hunits]
      exact Nat.mul_le_mul_right _ hten
    have hsteps := Nat.mul_le_mul_right stepsPerUnit hlast
    rw [Nat.mul_assoc] at hsteps
    rw [Nat.add_mul, Nat.mul_assoc] at hmidpoint
    omega
  · have hshift : shift body = 0 := by
      refine Nat.eq_zero_of_not_pos fun hpos => hten ?_
      exact (show 10 ≤ fractionSize by decide).trans (Binary64.le_significand hpos)
    rw [hshift, Nat.pow_zero] at hmidpoint
    rw [hshift, Nat.pow_zero, Nat.mul_one] at hunits
    exact reach_of_units_lt_ten _ (by omega) (Binary64.patternUnits_pos hne) hmidpoint

/-- What is found as the shortest decimal. -/
theorem isCoarsest_shortest :
    ∃ grid digits : Nat, shortest (patternUnits body) = ⟨digits, (grid : Int) - places⟩ ∧
      IsCoarsest (readsBack body) (patternUnits body * stepsPerUnit)
        (digitsOf (patternUnits body * stepsPerUnit)).length grid digits := by
  have hsearch := search_isCoarsest (isRange_readsBack hbody hne)
    (digitsOf (patternUnits body * stepsPerUnit)).length
  rw [shortest, Binary64.pattern_patternUnits hbody]
  exact hsearch

/-- It is not zero, and its digits do not end in a zero. -/
theorem shortest_digits : 0 < (shortest (patternUnits body)).digits ∧
    (shortest (patternUnits body)).digits % 10 ≠ 0 := by
  rcases isCoarsest_shortest hbody hne with ⟨grid, digits, hshortest, hcoarsest⟩
  have hrange := isRange_readsBack hbody hne
  rw [hshortest]
  exact ⟨hcoarsest.pos hrange, hcoarsest.mod_ten_ne_zero hrange (lt_pow_length_digitsOf _)⟩

/-- It is rounded to the pattern. -/
theorem isNearestPattern_shortest :
    IsNearestPattern (shortest (patternUnits body)).value body := by
  rcases isCoarsest_shortest hbody hne with ⟨grid, digits, hshortest, hcoarsest⟩
  rw [hshortest, value_eq_ofSteps, ← readsBack_iff hbody]
  exact hcoarsest.passes

end Units

section Signs

variable {negative : Bool} {body : Nat}

-- A sign is no digit.
theorem hasDigits_signed_iff {k : Nat} {w : ℚ} :
    HasDigits k (signed negative w) ↔ HasDigits k w := by
  rw [HasDigits, HasDigits, Binary64.abs_signed]

theorem hasDigits_value {k : Nat} {d : Decimal} (h : d.digits < Nat.pow 10 k) :
    HasDigits k d.value :=
  ⟨d.digits, d.exponent, h, abs_of_nonneg d.value_nonneg⟩

variable (hbody : body < infinityPattern) (hne : body ≠ 0)
include hbody hne

/-- A decimal that is rounded to a double is a point of some grid, but for its sign, or one is that
    is at least as close. -/
theorem exists_steps_of_roundsTo {w : ℚ} {k : Nat} (hrounds : RoundsTo w (ofPattern negative body))
    (hdigits : HasDigits k w) :
    ∃ m grid, m < Nat.pow 10 k ∧ readsBack body (m * Nat.pow 10 grid) = true ∧
      |ofSteps (m * Nat.pow 10 grid) - magnitude body|
        ≤ |w - signed negative (magnitude body)| := by
  rcases hrounds.pos_of_signed hbody hne with ⟨hsign, hnearest⟩
  rw [← Binary64.abs_signed_sub_signed negative w, Binary64.signed_signed]
  exact exists_steps hbody hne hsign.le hnearest (hasDigits_signed_iff.mpr hdigits)

/-- The shortest decimal, behind the sign of a double, is the shortest that is rounded to it. -/
theorem isShortest_shortest :
    IsShortest (signed negative (shortest (patternUnits body)).value)
      (ofPattern negative body) := by
  have hrange := isRange_readsBack hbody hne
  have hpos := Nat.mul_pos (Binary64.patternUnits_pos hne) stepsPerUnit_pos
  have hhigh := lt_pow_length_digitsOf (patternUnits body * stepsPerUnit)
  have hlow := pow_length_digitsOf_le hpos
  rcases isCoarsest_shortest hbody hne with ⟨grid, digits, hshortest, hcoarsest⟩
  have hdigits : ∀ k, digits < Nat.pow 10 k →
      HasDigits k (signed negative (shortest (patternUnits body)).value) := by
    intro k hk
    rw [hasDigits_signed_iff, hshortest]
    exact hasDigits_value hk
  refine ⟨?_, ⟨_, hdigits _ (lt_pow_length_digitsOf digits)⟩, fun w' k hrounds hfew => ?_,
    fun w' p hp hrounds hmore => ?_⟩
  · exact (Binary64.roundsTo_signed_iff hbody hne).mpr
      ⟨value_nonneg _, isNearestPattern_shortest hbody hne⟩
  · rcases exists_steps_of_roundsTo hbody hne hrounds hfew with ⟨m, grid', hm, hpass, -⟩
    exact hdigits k (hcoarsest.fewest hrange hhigh hm hpass)
  · rw [Binary64.rational?_signed hbody, Option.some.injEq] at hp
    subst hp
    have hlead : Nat.pow 10 (Nat.log 10 digits) ≤ digits :=
      Nat.pow_log_le_self 10 (Nat.ne_of_gt (hcoarsest.pos hrange))
    have hcount : digits < Nat.pow 10 (Nat.log 10 digits + 1) :=
      Nat.lt_pow_succ_log_self (by decide) digits
    rcases exists_steps_of_roundsTo hbody hne hrounds (hmore _ (hdigits _ hcount)) with
      ⟨m, grid', hm, hpass, hle⟩
    refine le_trans ?_ hle
    rw [Binary64.abs_signed_sub_signed, hshortest, value_eq_ofSteps, magnitude_eq_ofSteps,
      dist_le_dist_iff]
    exact hcoarsest.closest hrange hlow hhigh (reach_of_readsBack hbody hne) hlead hm hpass

end Signs

end Decimal

end Reckoner
