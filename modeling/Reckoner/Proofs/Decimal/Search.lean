import Mathlib
import Reckoner.Proofs.Decimal.Digits

/-!
# The Search for the Shortest Decimal

That the search over the grids finds the best of all decimals, whatever the test is, as long as
the numbers that pass it are a range around the one that is searched for (`IsRange`).

The search tries two points of each grid. If any point of the grid is in the range, then one
of these two is, and the closer one of those that are is at least as close as that point
(`onGrid?_closest`). So the search ends on the coarsest grid that meets the range
(`search_isCoarsest`). From this everything follows by one argument. A number with fewer
digits on a finer grid would lie below the power of ten that begins the numbers of as many
digits as were found. If it were in the range, then that power would be too, and the power
lies on a coarser grid (`IsCoarsest.not_passes_of_le`).

Only a single digit has no power of ten below it on a coarser grid. If the number itself lies
below the power that was found, then another digit of the next finer grid could be
closer. The range must not reach so far up then, and that it does not is a hypothesis here
(`IsCoarsest.closest_of_below`).

## Main definitions

* `Decimal.IsRange`: What passes a test is a range around a number.
* `Decimal.IsCoarsest`: What the search has found on which grid.

## Theorems

* `passes_next`, `onGrid?_closest`: What is found on a grid.
* `search_isCoarsest`: Where the search ends.
* `IsCoarsest.mod_ten_ne_zero`: What is found does not end in a zero.
* `IsCoarsest.fewest`, `IsCoarsest.closest`: No number that passes has fewer digits, and none
  that has as many is closer.
-/

namespace Reckoner

namespace Decimal

/-- What passes a test is a range of numbers around a given one, and zero is not in it. -/
structure IsRange (test : Nat → Bool) (steps : Nat) : Prop where
  self : test steps = true
  zero : test 0 = false
  convex : ∀ {low n high}, test low = true → test high = true → low ≤ n → n ≤ high → test n = true

/-- The first digits from a number of grids down to the finest, and the grid on which they are. -/
structure IsCoarsest (test : Nat → Bool) (steps first grid digits : Nat) : Prop where
  le : grid ≤ first
  found : onGrid? test steps grid = some digits
  none_of_lt : ∀ coarser, grid < coarser → coarser ≤ first → onGrid? test steps coarser = none

section Range

variable {test : Nat → Bool} {steps : Nat} (hrange : IsRange test steps)
include hrange

/-- If a point of a grid passes, then so does the one next to the number on the same side. -/
theorem passes_next {grid t : Nat} (hpass : test (t * Nat.pow 10 grid) = true) :
    (t * Nat.pow 10 grid ≤ steps / Nat.pow 10 grid * Nat.pow 10 grid ∧
      test (steps / Nat.pow 10 grid * Nat.pow 10 grid) = true) ∨
    ((steps / Nat.pow 10 grid + 1) * Nat.pow 10 grid ≤ t * Nat.pow 10 grid ∧
      test ((steps / Nat.pow 10 grid + 1) * Nat.pow 10 grid) = true) := by
  have hpos := pow_ten_pos grid
  rcases Nat.lt_or_ge steps (t * Nat.pow 10 grid) with habove | hbelow
  · have hle := Nat.mul_le_mul_right (Nat.pow 10 grid)
      (Nat.succ_le_of_lt ((Nat.div_lt_iff_lt_mul hpos).mpr habove))
    have hself := (Nat.div_lt_iff_lt_mul hpos).mp (Nat.lt_succ_self (steps / Nat.pow 10 grid))
    exact Or.inr ⟨hle, hrange.convex hrange.self hpass (Nat.le_of_lt hself) hle⟩
  · have hle := Nat.mul_le_mul_right (Nat.pow 10 grid) ((Nat.le_div_iff_mul_le hpos).mpr hbelow)
    exact Or.inl ⟨hle, hrange.convex hpass hrange.self hle (Nat.div_mul_le_self _ _)⟩

/-- Then something is found on the grid, and nothing on the grid that passes is closer. -/
theorem onGrid?_closest {grid t : Nat} (hpass : test (t * Nat.pow 10 grid) = true) :
    ∃ digits, onGrid? test steps grid = some digits ∧
      Nat.dist (digits * Nat.pow 10 grid) steps ≤ Nat.dist (t * Nat.pow 10 grid) steps := by
  have hside := passes_next hrange hpass
  have hsteps : steps / Nat.pow 10 grid * Nat.pow 10 grid + steps % Nat.pow 10 grid = steps :=
    Nat.div_add_mod' steps (Nat.pow 10 grid)
  have hrest : steps % Nat.pow 10 grid < Nat.pow 10 grid := Nat.mod_lt steps (pow_ten_pos grid)
  have hnext : (steps / Nat.pow 10 grid + 1) * Nat.pow 10 grid
      = steps / Nat.pow 10 grid * Nat.pow 10 grid + Nat.pow 10 grid := Nat.succ_mul _ _
  unfold onGrid? Nat.dist
  dsimp only
  split
  · refine ⟨_, rfl, ?_⟩
    split
    · omega
    · omega
  · rename_i hnot
    rw [hnot] at hside
    refine ⟨_, rfl, ?_⟩
    rcases hside with ⟨hle, -⟩ | ⟨-, hfalse⟩
    · omega
    · cases hfalse
  · rename_i hnot _
    rw [hnot] at hside
    refine ⟨_, rfl, ?_⟩
    rcases hside with ⟨-, hfalse⟩ | ⟨hle, -⟩
    · cases hfalse
    · omega
  · rename_i hbelow habove
    rw [hbelow, habove] at hside
    rcases hside with ⟨-, hfalse⟩ | ⟨-, hfalse⟩
    · cases hfalse
    · cases hfalse

/-- On the finest grid the number itself is found. -/
theorem onGrid?_zero : onGrid? test steps 0 = some steps := by
  have hself : test (steps * Nat.pow 10 0) = true := by
    rw [show steps * Nat.pow 10 0 = steps from Nat.mul_one steps]
    exact hrange.self
  rcases onGrid?_closest hrange hself with ⟨digits, hfound, hclosest⟩
  rw [show ∀ n, n * Nat.pow 10 0 = n from Nat.mul_one, Nat.mul_one, Nat.dist_self] at hclosest
  rw [hfound, Nat.eq_of_dist_eq_zero (Nat.le_zero.mp hclosest)]

/-- The search ends on the coarsest grid on which something is found. -/
theorem search_isCoarsest (first : Nat) :
    ∃ grid digits : Nat,
      search (onGrid? test steps) steps first = ⟨digits, (grid : Int) - places⟩ ∧
        IsCoarsest test steps first grid digits := by
  induction first with
  | zero =>
      refine ⟨0, steps, ?_, Nat.le_refl 0, onGrid?_zero hrange, fun coarser hlt hle => ?_⟩
      · rw [search, Nat.cast_zero, zero_sub]
      · exact absurd hle (Nat.not_le_of_lt hlt)
  | succ first ih =>
      rcases hgrid : onGrid? test steps (first + 1) with _ | digits
      · rcases ih with ⟨grid, digits, hsearch, hle, hfound, hnone⟩
        refine ⟨grid, digits, ?_, Nat.le_succ_of_le hle, hfound, fun coarser hlt hle' => ?_⟩
        · simp only [search, hgrid]
          exact hsearch
        · rcases Nat.lt_or_eq_of_le hle' with hless | rfl
          · exact hnone coarser hlt (Nat.le_of_lt_succ hless)
          · exact hgrid
      · refine ⟨first + 1, digits, ?_, Nat.le_refl _, hgrid, fun coarser hlt hle => ?_⟩
        · simp only [search, hgrid]
        · exact absurd hle (Nat.not_le_of_lt hlt)

section Coarsest

variable {first grid digits : Nat} (hlow : Nat.pow 10 first ≤ 10 * steps)
  (hhigh : steps < Nat.pow 10 first) (h : IsCoarsest test steps first grid digits)
include h

omit hrange in
/-- What is found has passed. -/
theorem IsCoarsest.passes : test (digits * Nat.pow 10 grid) = true :=
  onGrid?_passes h.found

/-- So it is not zero. -/
theorem IsCoarsest.pos : 0 < digits := by
  refine Nat.pos_of_ne_zero fun hzero => ?_
  have hpass := h.passes
  rw [hzero, Nat.zero_mul, hrange.zero] at hpass
  cases hpass

/-- Nothing on the same grid that passes is closer. -/
theorem IsCoarsest.dist_le {t : Nat} (hpass : test (t * Nat.pow 10 grid) = true) :
    Nat.dist (digits * Nat.pow 10 grid) steps ≤ Nat.dist (t * Nat.pow 10 grid) steps := by
  rcases onGrid?_closest hrange hpass with ⟨digits', hfound, hclosest⟩
  rw [h.found, Option.some.injEq] at hfound
  rw [hfound]
  exact hclosest

include hhigh in
/-- On the grid that the search begins with there is no more than a single one. -/
theorem IsCoarsest.lt_of_one_lt (hdigits : 1 < digits) : grid < first := by
  refine Nat.lt_of_le_of_ne h.le fun hsame => ?_
  subst hsame
  have hpass : test (1 * Nat.pow 10 grid) = true := by
    refine hrange.convex hrange.self h.passes ?_ ?_
    · rw [Nat.one_mul]
      exact Nat.le_of_lt hhigh
    · exact Nat.mul_le_mul_right _ (Nat.le_of_lt hdigits)
  have hdist := h.dist_le hrange hpass
  have hmore := Nat.mul_le_mul_right (Nat.pow 10 grid) hdigits
  unfold Nat.dist at hdist
  rw [Nat.succ_mul, Nat.one_mul] at hmore
  have hpos := pow_ten_pos grid
  omega

include hhigh in
theorem IsCoarsest.lt_of_pow_le {k : Nat} (hk : Nat.pow 10 (k + 1) ≤ digits) : grid < first :=
  h.lt_of_one_lt hrange hhigh
    ((Nat.one_lt_pow (Nat.succ_ne_zero k) (Nat.succ_lt_succ (Nat.succ_pos 8))).trans_le hk)

/-- Unless the search has ended where it began, nothing on a coarser grid passes. -/
theorem IsCoarsest.not_passes (hless : grid < first) {coarser : Nat} (hcoarser : grid < coarser)
    (t : Nat) : ¬test (t * Nat.pow 10 coarser) = true := by
  -- What lies on a grid coarser than the first lies on the first.
  have hinside : ∀ {grid' t' : Nat}, grid < grid' → grid' ≤ first →
      ¬test (t' * Nat.pow 10 grid') = true := by
    intro grid' t' hgrid hle hpass
    rcases onGrid?_closest hrange hpass with ⟨digits', hfound, -⟩
    rw [h.none_of_lt grid' hgrid hle] at hfound
    cases hfound
  rcases Nat.le_total coarser first with hle | hge
  · exact hinside hcoarser hle
  · have hsame : t * Nat.pow 10 coarser
        = t * Nat.pow 10 (coarser - first) * Nat.pow 10 first := by
      rw [Nat.mul_assoc, ← pow_ten_add, Nat.sub_add_cancel hge]
    rw [hsame]
    exact hinside hless (Nat.le_refl first)

include hhigh

/-- What is found does not end in a zero. -/
theorem IsCoarsest.mod_ten_ne_zero : digits % 10 ≠ 0 := by
  intro hmod
  have hpos := h.pos hrange
  have hless := h.lt_of_one_lt hrange hhigh (by omega)
  have hsame : digits * Nat.pow 10 grid = digits / 10 * Nat.pow 10 (grid + 1) := by
    rw [pow_ten_succ, ← Nat.mul_assoc, Nat.div_mul_cancel (Nat.dvd_of_mod_eq_zero hmod)]
  have hpass := h.passes
  rw [hsame] at hpass
  exact h.not_passes hrange hless (Nat.lt_succ_self grid) _ hpass

-- A power of ten between a number that passes and what was found would lie on a coarser
-- grid.
theorem IsCoarsest.not_passes_of_le {k n : Nat} (hk : Nat.pow 10 (k + 1) ≤ digits)
    (hn : n ≤ Nat.pow 10 (k + 1) * Nat.pow 10 grid) : ¬test n = true := by
  intro hpass
  have hsame : Nat.pow 10 (k + 1) * Nat.pow 10 grid = Nat.pow 10 k * Nat.pow 10 (grid + 1) := by
    rw [pow_ten_succ, pow_ten_succ]
    ring
  have hpower := hrange.convex hpass h.passes hn (Nat.mul_le_mul_right _ hk)
  rw [hsame] at hpower
  exact h.not_passes hrange (h.lt_of_pow_le hrange hhigh hk) (Nat.lt_succ_self grid) _ hpower

/-- No number that passes has fewer digits than what is found. -/
theorem IsCoarsest.fewest {k m grid' : Nat} (hm : m < Nat.pow 10 k)
    (hpass : test (m * Nat.pow 10 grid') = true) : digits < Nat.pow 10 k := by
  refine Nat.lt_of_not_le fun hk => ?_
  cases k with
  | zero =>
      have hzero : m = 0 := Nat.lt_one_iff.mp hm
      rw [hzero, Nat.zero_mul, hrange.zero] at hpass
      cases hpass
  | succ k =>
      rcases Nat.lt_or_ge grid grid' with hcoarser | hfiner
      · exact h.not_passes hrange (h.lt_of_pow_le hrange hhigh hk) hcoarser m hpass
      · have hle : m * Nat.pow 10 grid' ≤ Nat.pow 10 (k + 1) * Nat.pow 10 grid :=
          Nat.mul_le_mul (Nat.le_of_lt hm) (Nat.pow_le_pow_right (Nat.succ_pos 9) hfiner)
        exact h.not_passes_of_le hrange hhigh hk hle hpass

include hlow

variable (hreach : test (Nat.pow 10 first) = true → 19 * Nat.pow 10 first ≤ 20 * steps)
include hreach

-- A number below all of those on the grid is not closer either. If the steps are too few for the
-- grid, then they are close to its first number.
theorem IsCoarsest.closest_of_below {n : Nat} (hn : 10 * n ≤ 9 * Nat.pow 10 grid)
    (hpass : test n = true) :
    Nat.dist (digits * Nat.pow 10 grid) steps ≤ Nat.dist n steps := by
  have hpower : test (1 * Nat.pow 10 grid) = true :=
    hrange.convex hpass h.passes (by omega) (Nat.mul_le_mul_right _ (h.pos hrange))
  have hdist := h.dist_le hrange hpower
  rw [Nat.one_mul] at hpower hdist
  unfold Nat.dist at hdist ⊢
  rcases Nat.lt_or_ge steps (Nat.pow 10 grid) with habove | hreached
  · have hless : Nat.pow 10 first < Nat.pow 10 (grid + 1) := by
      rw [pow_ten_succ]
      omega
    have hle := Nat.le_of_lt_succ ((Nat.pow_lt_pow_iff_right (by decide)).mp hless)
    rw [Nat.le_antisymm hle h.le] at hreach
    have hnear := hreach hpower
    omega
  · omega

/-- No number that passes and has as many digits is closer. -/
theorem IsCoarsest.closest {k m grid' : Nat} (hk : Nat.pow 10 k ≤ digits)
    (hm : m < Nat.pow 10 (k + 1)) (hpass : test (m * Nat.pow 10 grid') = true) :
    Nat.dist (digits * Nat.pow 10 grid) steps ≤ Nat.dist (m * Nat.pow 10 grid') steps := by
  rcases Nat.lt_or_ge grid' grid with hfiner | hcoarser
  · have hfine : Nat.pow 10 (grid' + 1) ≤ Nat.pow 10 grid :=
      Nat.pow_le_pow_right (Nat.succ_pos 9) hfiner
    cases k with
    | zero =>
        have hnine : m ≤ 9 := Nat.le_of_lt_succ hm
        refine h.closest_of_below hrange hlow hhigh hreach ?_ hpass
        calc 10 * (m * Nat.pow 10 grid')
            = m * Nat.pow 10 (grid' + 1) := by rw [pow_ten_succ, Nat.mul_left_comm]
          _ ≤ 9 * Nat.pow 10 grid := Nat.mul_le_mul hnine hfine
    | succ k =>
        refine absurd hpass (h.not_passes_of_le hrange hhigh hk ?_)
        calc m * Nat.pow 10 grid'
            ≤ Nat.pow 10 (k + 1 + 1) * Nat.pow 10 grid' :=
              Nat.mul_le_mul_right _ (Nat.le_of_lt hm)
          _ = Nat.pow 10 (k + 1) * Nat.pow 10 (grid' + 1) := by
              rw [pow_ten_succ (k + 1), pow_ten_succ grid']
              ring
          _ ≤ Nat.pow 10 (k + 1) * Nat.pow 10 grid := Nat.mul_le_mul_left _ hfine
  · have hsame : m * Nat.pow 10 grid' = m * Nat.pow 10 (grid' - grid) * Nat.pow 10 grid := by
      rw [Nat.mul_assoc, ← pow_ten_add, Nat.sub_add_cancel hcoarser]
    rw [hsame] at hpass ⊢
    exact h.dist_le hrange hpass

end Coarsest

end Range

end Decimal

end Reckoner
