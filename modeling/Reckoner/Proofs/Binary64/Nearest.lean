import Reckoner.Proofs.Binary64.Rounding

/-!
# The Nearest Double

`nearest` is the double nearest to a quotient, and it is the only one.

What it means to be nearest says nothing about patterns (`IsNearest`). Finite
doubles are rational numbers, and no other one of them, of either sign, may be closer. If
another one is as close, the last bit decides. What is so large that it would be
rounded up to `2 ^ 1024` is infinite instead: it begins halfway between that number and the
largest double, which is odd and would lose the tie (`overflowBound`).

Magnitudes grow with their patterns, so that a pattern is nearest if the number lies
between the two midpoints around it (`isNearestPattern_of_neighbours`), and this is
what rounding has been shown to achieve. If two patterns were both nearest, then there would be
a third one between them that is nearer, since both would have to be even
(`IsNearestPattern.unique`). For doubles it is the same, since the pattern of a nearest double
is nearest among all patterns, those beyond the infinity included
(`isNearestPattern_of_dist`).

## Main definitions

* `Binary64.magnitude`: The rational number that a pattern stands for.
* `Binary64.rational?`: The rational number that a double is.
* `Binary64.IsNearestPattern`: No other pattern stands for a nearer number.
* `Binary64.overflowBound`: From here on numbers are too large.
* `Binary64.IsNearest`: The double is the nearest one, ties to even.

## Theorems

* `magnitude_strictMono`: Magnitudes grow with their patterns.
* `isNearestPattern_of_neighbours`: The neighbours decide what is nearest.
* `isNearestPattern_rounded`: Rounding finds the nearest pattern.
* `IsNearestPattern.unique`: There is only one.
* `IsNearestPattern.infinityPattern_le_iff`: What is rounded to the infinity or beyond.
* `isNearestPattern_of_dist`: The finite patterns decide what is nearest below the bound.
* `isNearest_ofPattern`: The double of the nearest pattern is nearest.
* `isNearest_nearest`, `IsNearest.unique`: The nearest double exists and is unique.
* `IsNearest.parts_eq_infinite_iff`, `IsNearest.parts_eq_zero_iff`: What is rounded to the
  infinity and what to zero.
-/

namespace Reckoner

namespace Binary64

/-- The rational number that a pattern stands for. The pattern of the infinity and those above
    it count as if the exponents never ended. -/
def magnitude (body : Nat) : ℚ :=
  patternUnits body / unitsPerOne

-- The sizes are powers of two, here as rational numbers.
theorem cast_two_pow (k : Nat) : (Nat.pow 2 k : ℕ) = (2 : ℚ) ^ k := by
  rw [Nat.pow_eq, Nat.cast_pow, Nat.cast_two]

-- The exponent is made general, since the power is too large to be computed.
theorem unitsPerOne_eq : (unitsPerOne : ℚ) = 2 ^ 1074 := by
  unfold unitsPerOne
  generalize 1074 = n
  exact cast_two_pow n

theorem unitsPerOne_pos : (0 : ℚ) < unitsPerOne := by
  rw [unitsPerOne_eq]
  positivity

theorem zero_lt_unitsPerOne : 0 < unitsPerOne :=
  Nat.cast_pos.mp unitsPerOne_pos

theorem magnitude_strictMono : StrictMono magnitude := by
  intro body body' h
  exact div_lt_div_of_pos_right (Nat.cast_lt.mpr (patternUnits_strictMono h)) unitsPerOne_pos

theorem magnitude_nonneg (body : Nat) : 0 ≤ magnitude body :=
  div_nonneg (Nat.cast_nonneg _) unitsPerOne_pos.le

theorem magnitude_zero : magnitude 0 = 0 :=
  div_eq_zero_iff.mpr (Or.inl rfl)

theorem magnitude_add (body body' : Nat) : magnitude body + magnitude body'
    = (patternUnits body + patternUnits body' : ℕ) / unitsPerOne := by
  rw [magnitude, magnitude, Nat.cast_add, add_div]

/-- A number lies between the midpoints to all other patterns, and on one of them only if the
    pattern is even. -/
structure IsNearestPattern (q : ℚ) (body : Nat) : Prop where
  above : ∀ other, body < other → 2 * q ≤ magnitude body + magnitude other
  below : ∀ other, other < body → magnitude other + magnitude body ≤ 2 * q
  even : ∀ other, other ≠ body → magnitude other + magnitude body = 2 * q → body % 2 = 0

-- The closer of two numbers is the one on whose side of their midpoint the given one lies.
theorem abs_sub_le_abs_sub_iff {a b : ℚ} (h : a < b) (q : ℚ) :
    (|a - q| ≤ |b - q| ↔ 2 * q ≤ a + b) ∧ (|b - q| ≤ |a - q| ↔ a + b ≤ 2 * q) := by
  have hlow : (b - q) ^ 2 - (a - q) ^ 2 = (b - a) * (a + b - 2 * q) := by ring
  have hhigh : (a - q) ^ 2 - (b - q) ^ 2 = (b - a) * (2 * q - (a + b)) := by ring
  have hpos := sub_pos.mpr h
  rw [← sq_le_sq, ← sq_le_sq, ← sub_nonneg, hlow, ← sub_nonneg (b := (b - q) ^ 2), hhigh,
    mul_nonneg_iff_of_pos_left hpos, mul_nonneg_iff_of_pos_left hpos, sub_nonneg, sub_nonneg]
  exact ⟨Iff.rfl, Iff.rfl⟩

section Patterns

variable {q : ℚ} {body : Nat}

/-- The neighbours of a pattern decide whether it is nearest. -/
theorem isNearestPattern_of_neighbours
    (habove : 2 * q ≤ magnitude body + magnitude (body + 1) ∧
      (2 * q = magnitude body + magnitude (body + 1) → body % 2 = 0))
    (hbelow : ∀ pred, pred + 1 = body → magnitude pred + magnitude body ≤ 2 * q ∧
      (magnitude pred + magnitude body = 2 * q → body % 2 = 0)) :
    IsNearestPattern q body where
  above other hother := by
    have hnext := magnitude_strictMono.monotone (Nat.succ_le_of_lt hother)
    exact habove.1.trans (add_le_add_right hnext _)
  below other hother := by
    rcases Nat.exists_eq_add_one_of_ne_zero (Nat.ne_zero_of_lt hother) with ⟨pred, rfl⟩
    have hpred := magnitude_strictMono.monotone (Nat.le_of_lt_succ hother)
    exact (add_le_add_left hpred _).trans (hbelow pred rfl).1
  even other hother htie := by
    rcases Nat.lt_or_gt_of_ne hother with hless | hgreater
    · rcases Nat.exists_eq_add_one_of_ne_zero (Nat.ne_zero_of_lt hless) with ⟨pred, rfl⟩
      have hpred := magnitude_strictMono.monotone (Nat.le_of_lt_succ hless)
      have hmidpoint := (hbelow pred rfl).1
      exact (hbelow pred rfl).2 (by linarith)
    · have hnext := magnitude_strictMono.monotone (Nat.succ_le_of_lt hgreater)
      have hmidpoint := habove.1
      exact habove.2 (by linarith)

/-- Rounding finds the nearest pattern. -/
theorem isNearestPattern_rounded {n d : Nat} (hd : 0 < d) :
    IsNearestPattern (n / d) (rounded (n * unitsPerOne) d) := by
  have hd' : (0 : ℚ) < d := Nat.cast_pos.mpr hd
  have hone := unitsPerOne_pos
  have hquotient : 2 * ((n : ℚ) / d) = (2 * n : ℕ) / d := by
    rw [Nat.cast_mul, Nat.cast_two, mul_div_assoc]
  refine isNearestPattern_of_neighbours ?_ fun pred hpred => ?_
  · have hunits := @two_mul_le_rounded (n * unitsPerOne) d hd
    rw [hquotient, magnitude_add, div_le_div_iff₀ hd' hone, div_eq_div_iff hd'.ne' hone.ne',
      ← Nat.cast_mul, ← Nat.cast_mul, Nat.cast_le, Nat.cast_inj, Nat.mul_assoc]
    exact hunits
  · have hunits := @rounded_mul_le (n * unitsPerOne) d hd pred hpred
    rw [hquotient, magnitude_add, div_le_div_iff₀ hone hd', div_eq_div_iff hone.ne' hd'.ne',
      ← Nat.cast_mul, ← Nat.cast_mul, Nat.cast_le, Nat.cast_inj, Nat.mul_assoc 2]
    exact hunits

variable (h : IsNearestPattern q body)
include h

/-- The number of the nearest pattern is closer than all others. -/
theorem IsNearestPattern.dist_le (other : Nat) :
    |magnitude body - q| ≤ |magnitude other - q| := by
  rcases Nat.lt_trichotomy body other with hgreater | rfl | hless
  · exact (abs_sub_le_abs_sub_iff (magnitude_strictMono hgreater) q).1.mpr (h.above other hgreater)
  · exact le_rfl
  · exact (abs_sub_le_abs_sub_iff (magnitude_strictMono hless) q).2.mpr (h.below other hless)

/-- If another one is as close, then the nearest pattern is even. -/
theorem IsNearestPattern.even_of_dist_eq {other : Nat} (hother : other ≠ body)
    (htie : |magnitude body - q| = |magnitude other - q|) : body % 2 = 0 := by
  refine h.even other hother ?_
  rcases abs_eq_abs.mp htie with hsame | hmidpoint
  · exact absurd (magnitude_strictMono.injective (sub_left_injective hsame.symm)) hother
  · linarith

-- Of two patterns that meet in the middle one is odd, or there is a third one between them.
theorem IsNearestPattern.not_lt {body' : Nat}
    (h' : IsNearestPattern q body') : ¬body < body' := by
  intro hless
  have htie : magnitude body + magnitude body' = 2 * q :=
    le_antisymm (h'.below body hless) (h.above body' hless)
  have hparity := h.even body' (Nat.ne_of_gt hless) (by rw [add_comm]; exact htie)
  have hparity' := h'.even body (Nat.ne_of_lt hless) htie
  have hbetween := h.above (body + 1) (Nat.lt_succ_self body)
  have hhigh : magnitude (body + 1) < magnitude body' := magnitude_strictMono (by omega)
  linarith

/-- No number is rounded to two patterns. -/
theorem IsNearestPattern.unique {body' : Nat}
    (h' : IsNearestPattern q body') : body = body' :=
  Nat.le_antisymm (Nat.le_of_not_lt (h'.not_lt h)) (Nat.le_of_not_lt (h.not_lt h'))

end Patterns

/-- Halfway between the largest double and `2 ^ 1024`. -/
def overflowBound : ℚ :=
  2 ^ 1024 - 2 ^ 970

theorem magnitude_infinityPattern : magnitude infinityPattern = 2 ^ 1024 := by
  have hfields : infinityPattern = 2046 * fractionSize + fractionSize := by decide
  have hfraction : (fractionSize : ℚ) = 2 ^ 52 := cast_two_pow 52
  rw [magnitude, hfields, patternUnits_mul_add (Or.inr le_rfl) (by decide), unitsPerOne_eq,
    Nat.cast_mul, Nat.cast_pow, Nat.cast_two, hfraction, ← pow_add,
    div_eq_iff (pow_ne_zero _ two_ne_zero), ← pow_add]

-- The bound lies in the middle between the infinity and the largest double.
theorem magnitude_add_infinityPattern :
    magnitude (infinityPattern - 1) + magnitude infinityPattern = 2 * overflowBound := by
  have hshift : shift (infinityPattern - 1) = 2045 := by decide
  have hgap : magnitude infinityPattern = magnitude (infinityPattern - 1) + 2 ^ 971 := by
    have hunits := patternUnits_succ (infinityPattern - 1)
    rw [Nat.sub_add_cancel (by decide), hshift] at hunits
    rw [magnitude, hunits, Nat.cast_add, add_div, ← magnitude, add_right_inj, Nat.cast_pow,
      Nat.cast_two, unitsPerOne_eq, div_eq_iff (pow_ne_zero _ two_ne_zero), ← pow_add]
  rw [overflowBound, ← magnitude_infinityPattern, hgap, pow_succ 2 970]
  generalize (2 : ℚ) ^ 970 = half
  ring

/-- The nearest pattern is that of the infinity or beyond it exactly if the number reaches the
    bound. The largest double is odd. -/
theorem IsNearestPattern.infinityPattern_le_iff {q : ℚ} {body : Nat}
    (h : IsNearestPattern q body) : infinityPattern ≤ body ↔ overflowBound ≤ q := by
  have hbound := magnitude_add_infinityPattern
  have hlast : infinityPattern - 1 < infinityPattern := by decide
  have hodd : (infinityPattern - 1) % 2 = 1 := by decide
  constructor
  · intro hbody
    have hmidpoint := h.below (infinityPattern - 1) (Nat.lt_of_lt_of_le hlast hbody)
    have hmono := magnitude_strictMono.monotone hbody
    linarith
  · intro hq
    refine Nat.le_of_not_lt fun hbody => ?_
    have hmidpoint := h.above infinityPattern hbody
    have hmono := magnitude_strictMono.monotone (Nat.le_sub_one_of_lt hbody)
    have htie : magnitude infinityPattern + magnitude body = 2 * q := by linarith
    have heven := h.even infinityPattern (Nat.ne_of_gt hbody) htie
    have hsame : body = infinityPattern - 1 :=
      magnitude_strictMono.injective (by linarith)
    omega

/-- The patterns of finite magnitudes decide what is nearest below the bound. -/
theorem isNearestPattern_of_dist {q : ℚ} {body : Nat} (hbody : body < infinityPattern)
    (hq : q < overflowBound)
    (h : ∀ other, other < infinityPattern → |magnitude body - q| ≤ |magnitude other - q| ∧
      (other ≠ body → |magnitude body - q| = |magnitude other - q| → body % 2 = 0)) :
    IsNearestPattern q body := by
  refine isNearestPattern_of_neighbours ?_ fun pred hpred => ?_
  · have hmono := magnitude_strictMono (Nat.lt_succ_self body)
    rcases Nat.lt_or_eq_of_le (Nat.succ_le_of_lt hbody) with hfinite | hlast
    · rcases h (body + 1) hfinite with ⟨hle, htie⟩
      refine ⟨(abs_sub_le_abs_sub_iff hmono q).1.mp hle, fun heq => ?_⟩
      exact htie (Nat.succ_ne_self body) (abs_eq_abs.mpr (Or.inr (by linarith)))
    · have hbound := magnitude_add_infinityPattern
      rw [← hlast, Nat.succ_eq_add_one, Nat.add_sub_cancel] at hbound
      exact ⟨by linarith, fun heq => by linarith⟩
  · subst hpred
    have hmono := magnitude_strictMono (Nat.lt_succ_self pred)
    rcases h pred (Nat.lt_of_succ_lt hbody) with ⟨hle, htie⟩
    refine ⟨(abs_sub_le_abs_sub_iff hmono q).2.mp hle, fun heq => ?_⟩
    exact htie (Nat.ne_of_lt (Nat.lt_succ_self pred)) (abs_eq_abs.mpr (Or.inr (by linarith)))

/-- The rational number that a double is, if it is finite. -/
def rational? (x : Float) : Option ℚ :=
  match parts x with
  | .finite false units => some (units / unitsPerOne)
  | .finite true units => some (-(units / unitsPerOne))
  | _ => none

/-- A double is the nearest one to a number that is not negative: it is infinite from the bound
    on, and below the bound no finite double is closer, and those that are as close leave
    the tie to its even last bit. -/
inductive IsNearest (q : ℚ) (x : Float) : Prop where
  | infinite (hq : overflowBound ≤ q) (hx : parts x = .infinite false)
  | finite {units : Nat} (hq : q < overflowBound) (hx : parts x = .finite false units)
      (hclosest : ∀ y w, rational? y = some w → |units / unitsPerOne - q| ≤ |w - q|)
      (heven : ∀ y w, rational? y = some w → w ≠ units / unitsPerOne →
        |units / unitsPerOne - q| = |w - q| → x.toBits.toNat % 2 = 0)

section Doubles

variable {q : ℚ} {body : Nat}

-- The numbers among the doubles are those of the patterns below the infinity.
theorem rational?_ofPattern (hbody : body < infinityPattern) :
    rational? (ofPattern false body) = some (magnitude body) := by
  rw [rational?, parts_ofPattern hbody]
  rfl

theorem exists_of_rational? {y : Float} {w : ℚ} (h : rational? y = some w) :
    ∃ body, body < infinityPattern ∧ (w = magnitude body ∨ w = -magnitude body) := by
  unfold rational? at h
  split at h
  · rename_i units hparts
    rcases eq_ofPattern_of_parts hparts with ⟨body, hbody, rfl, -⟩
    exact ⟨body, hbody, Or.inl (Option.some.inj h).symm⟩
  · rename_i units hparts
    rcases eq_ofPattern_of_parts hparts with ⟨body, hbody, rfl, -⟩
    exact ⟨body, hbody, Or.inr (Option.some.inj h).symm⟩
  · cases h

theorem parts_infinity : parts (ofPattern false infinityPattern) = .infinite false := by
  decide +kernel

theorem toNat_toBits_ofPattern (hbody : body < infinityPattern) :
    (ofPattern false body).toBits.toNat = body := by
  rw [toBits_ofPattern (Nat.le_of_lt hbody), Bool.toNat_false, Nat.zero_mul, Nat.zero_add]

-- The nearest pattern has the same over doubles of either sign. A negative number is not closer
-- than zero, and only zero itself is as close.
theorem IsNearestPattern.dist_le_rational (hq : 0 ≤ q) (h : IsNearestPattern q body) {y : Float}
    {w : ℚ} (hw : rational? y = some w) :
    |magnitude body - q| ≤ |w - q| ∧
      (w ≠ magnitude body → |magnitude body - q| = |w - q| → body % 2 = 0) := by
  have hpositive : ∀ other, magnitude other ≠ magnitude body →
      |magnitude body - q| = |magnitude other - q| → body % 2 = 0 :=
    fun other hne => h.even_of_dist_eq fun hsame => hne (congrArg magnitude hsame)
  rcases exists_of_rational? hw with ⟨other, -, rfl | rfl⟩
  · exact ⟨h.dist_le other, hpositive other⟩
  · have hsign := magnitude_nonneg other
    have hnegative : |-magnitude other - q| = magnitude other + q := by
      rw [abs_of_nonpos (by linarith)]
      ring
    have hzero := h.dist_le 0
    rw [magnitude_zero, zero_sub, abs_neg, abs_of_nonneg hq] at hzero
    refine ⟨by linarith, fun hne htie => ?_⟩
    have hnothing : -magnitude other = magnitude 0 := by
      rw [magnitude_zero]
      linarith
    rw [hnothing] at hne htie
    exact hpositive 0 hne htie

/-- The double of the nearest pattern is nearest. -/
theorem isNearest_ofPattern (hq : 0 ≤ q) (h : IsNearestPattern q body) :
    IsNearest q (ofPattern false (min body infinityPattern)) := by
  by_cases hbody : infinityPattern ≤ body
  · rw [Nat.min_eq_right hbody]
    exact .infinite (h.infinityPattern_le_iff.mp hbody) parts_infinity
  · have hless := Nat.lt_of_not_le hbody
    have hbelow : q < overflowBound := lt_of_not_ge (mt h.infinityPattern_le_iff.mpr hbody)
    rw [Nat.min_eq_left (Nat.le_of_lt hless)]
    refine .finite hbelow (parts_ofPattern hless)
      (fun y w hw => (h.dist_le_rational hq hw).1) fun y w hw => ?_
    rw [toNat_toBits_ofPattern hless]
    exact (h.dist_le_rational hq hw).2

/-- The double that is read off a quotient is the nearest one. -/
theorem isNearest_nearest (n : Nat) {d : Nat} (hd : 0 < d) : IsNearest (n / d) (nearest n d) := by
  have hq : (0 : ℚ) ≤ n / d := div_nonneg (Nat.cast_nonneg n) (Nat.cast_nonneg d)
  rw [nearest, pattern_eq_min]
  exact isNearest_ofPattern hq (isNearestPattern_rounded hd)

-- What a nearest double has over the others, by their patterns.
theorem IsNearest.dist_le (h : IsNearest q (ofPattern false body)) (hbody : body < infinityPattern)
    {other : Nat} (hother : other < infinityPattern) :
    |magnitude body - q| ≤ |magnitude other - q| ∧
      (other ≠ body → |magnitude body - q| = |magnitude other - q| → body % 2 = 0) := by
  rcases h with ⟨-, hx⟩ | ⟨-, hx, hclosest, heven⟩
  · rw [parts_ofPattern hbody] at hx
    cases hx
  · rw [parts_ofPattern hbody, Parts.finite.injEq] at hx
    rw [← hx.2, ← magnitude, toNat_toBits_ofPattern hbody] at heven
    rw [← hx.2, ← magnitude] at hclosest
    have hy := rational?_ofPattern hother
    exact ⟨hclosest _ _ hy, fun hne => heven _ _ hy (magnitude_strictMono.injective.ne hne)⟩

-- So its pattern is nearest too.
theorem IsNearest.isNearestPattern (h : IsNearest q (ofPattern false body))
    (hbody : body < infinityPattern) : IsNearestPattern q body := by
  have hq : q < overflowBound := by
    rcases h with ⟨-, hx⟩ | ⟨hq, -, -, -⟩
    · rw [parts_ofPattern hbody] at hx
      cases hx
    · exact hq
  exact isNearestPattern_of_dist hbody hq fun _ => h.dist_le hbody

-- Which doubles come into question at all.
theorem IsNearest.exists_ofPattern {x : Float} (h : IsNearest q x) :
    (overflowBound ≤ q ∧ x = ofPattern false infinityPattern) ∨
      (q < overflowBound ∧ ∃ body, body < infinityPattern ∧ x = ofPattern false body) := by
  rcases h with ⟨hq, hx⟩ | ⟨hq, hx, -, -⟩
  · exact Or.inl ⟨hq, eq_ofPattern_of_parts_infinite hx⟩
  · rcases eq_ofPattern_of_parts hx with ⟨body, hbody, -, hx⟩
    exact Or.inr ⟨hq, body, hbody, hx⟩

/-- There is only one nearest double. -/
theorem IsNearest.unique {x y : Float} (hx : IsNearest q x) (hy : IsNearest q y) : x = y := by
  rcases hx.exists_ofPattern with ⟨hq, rfl⟩ | ⟨hq, body, hbody, rfl⟩
  · rcases hy.exists_ofPattern with ⟨-, rfl⟩ | ⟨hq', -⟩
    · rfl
    · exact absurd hq (not_le_of_gt hq')
  · rcases hy.exists_ofPattern with ⟨hq', -⟩ | ⟨-, body', hbody', rfl⟩
    · exact absurd hq' (not_le_of_gt hq)
    · rw [(hx.isNearestPattern hbody).unique (hy.isNearestPattern hbody')]

/-- What reaches the bound is rounded to the infinity, and nothing else is. -/
theorem IsNearest.parts_eq_infinite_iff {x : Float} (h : IsNearest q x) :
    parts x = .infinite false ↔ overflowBound ≤ q := by
  rcases h with ⟨hq, hx⟩ | ⟨hq, hx, -, -⟩
  · exact ⟨fun _ => hq, fun _ => hx⟩
  · refine ⟨fun hinfinite => ?_, fun hbound => absurd hbound (not_le_of_gt hq)⟩
    rw [hx] at hinfinite
    cases hinfinite

theorem magnitude_one : magnitude 1 = 2 * (1 / 2 ^ 1075) := by
  have hunits : patternUnits 1 = 1 := rfl
  rw [magnitude, hunits, unitsPerOne_eq, Nat.cast_one, pow_succ (2 : ℚ) 1074]
  generalize (2 : ℚ) ^ 1074 = units
  ring

/-- What is at most half of the smallest double is rounded to zero, and nothing else is. -/
theorem IsNearest.parts_eq_zero_iff {x : Float} (hq : 0 ≤ q) (h : IsNearest q x) :
    parts x = .finite false 0 ↔ q ≤ 1 / 2 ^ 1075 := by
  -- The power is kept as it is, since it is too large to be computed.
  have hsmallest := magnitude_one
  generalize (1 : ℚ) / 2 ^ 1075 = half at hsmallest ⊢
  constructor
  · intro hparts
    rcases eq_ofPattern_of_parts hparts with ⟨body, hbody, hunits, rfl⟩
    have hzero : body = 0 := patternUnits_strictMono.injective (hunits.symm.trans rfl)
    rw [hzero] at h
    have hmidpoint := (h.isNearestPattern (by decide)).above 1 Nat.one_pos
    rw [magnitude_zero] at hmidpoint
    linarith
  · intro hsmall
    have hpattern : IsNearestPattern q 0 := by
      refine isNearestPattern_of_neighbours ⟨?_, fun _ => rfl⟩ fun pred hpred => ?_
      · rw [magnitude_zero]
        linarith
      · exact absurd hpred (Nat.succ_ne_zero pred)
    rw [h.unique (isNearest_ofPattern hq hpattern)]
    exact parts_ofPattern (by decide)

end Doubles

end Binary64

end Reckoner
