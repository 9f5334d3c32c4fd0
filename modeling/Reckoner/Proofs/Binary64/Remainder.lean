import Mathlib
import Reckoner.Expr.Value
import Reckoner.Proofs.Binary64.Nearest

/-!
# The Remainder Is Exact

The remainder of two doubles is that of their exact values.

A remainder of units is rounded like any other number of units, and it has to be seen that
nothing is lost. What is left over is a multiple of the smaller one of the two last places. If
that place belongs to the divisor, then fewer of its multiples are left than the divisor
has significant bits for; if it belongs to the dividend, then no more than the dividend
itself consists of (`exists_mod_eq`). Either way 53 bits are enough, and a number that
needs no more is a double (`exists_patternUnits`), whatever the size of the quotient was.

What the remainder should be is said in rational numbers, with the quotient cut off toward
zero (`truncated`). A sign can be taken out of such a quotient, so only the magnitudes have to
be divided, and their quotient is one of natural numbers.

## Main definitions

* `Binary64.signed`: A rational number with the sign of a double.
* `Binary64.truncated`: A rational number cut off toward zero.

## Theorems

* `exists_patternUnits`: Numbers that need no more bits than a double has are doubles.
* `exists_mod_eq`: A remainder needs no more bits than its operands.
* `exists_remainder`: The pattern of a remainder.
* `truncated_signed`: Numbers of either sign are cut off alike.
* `truncated_mul_add`: What was cut off is a remainder of units.
* `rational?_signed`: The number that a sign and a pattern stand for.
* `ofBits_eq_ofPattern`: The double of some bits is their sign and their pattern.
* `remainder_exact`: The remainder of any two doubles.
-/

namespace Reckoner

namespace Binary64

/-- A number that needs no more significant bits than a double has, with any zeros behind
    them, is that of some pattern. -/
theorem exists_patternUnits {m : Nat} (hm : m < 2 * fractionSize) (k : Nat) :
    ∃ body, patternUnits body = m * 2 ^ k := by
  induction k generalizing m with
  | zero => exact ⟨_, patternUnits_mul_add (Or.inl rfl) hm⟩
  | succ k ih =>
      by_cases hnormal : fractionSize ≤ m
      · exact ⟨_, patternUnits_mul_add (Or.inr hnormal) hm⟩
      · -- One of the zeros is needed as a significant bit.
        rcases ih (show 2 * m < 2 * fractionSize by omega) with ⟨body, hbody⟩
        refine ⟨body, ?_⟩
        rw [hbody, Nat.pow_succ]
        ring

/-- A remainder needs no more significant bits than its operands. -/
theorem exists_mod_eq {m n size : Nat} (hm : m < size) (hn : n < size) (hpos : 0 < n)
    (i j : Nat) : ∃ rest k, m * 2 ^ i % (n * 2 ^ j) = rest * 2 ^ k ∧ rest < size := by
  rcases Nat.le_total i j with hij | hji
  · refine ⟨m % (n * 2 ^ (j - i)), i, ?_, Nat.lt_of_le_of_lt (Nat.mod_le _ _) hm⟩
    have hdivisor : n * 2 ^ j = n * 2 ^ (j - i) * 2 ^ i := by
      rw [Nat.mul_assoc, ← Nat.pow_add, Nat.sub_add_cancel hij]
    rw [hdivisor, Nat.mul_mod_mul_right]
  · refine ⟨m * 2 ^ (i - j) % n, j, ?_, (Nat.mod_lt _ hpos).trans hn⟩
    have hdividend : m * 2 ^ i = m * 2 ^ (i - j) * 2 ^ j := by
      rw [Nat.mul_assoc, ← Nat.pow_add, Nat.sub_add_cancel hji]
    rw [hdividend, Nat.mul_mod_mul_right]

theorem patternUnits_zero : patternUnits 0 = 0 :=
  rfl

theorem patternUnits_pos {body : Nat} (h : body ≠ 0) : 0 < patternUnits body := by
  have hmono := patternUnits_strictMono (Nat.pos_of_ne_zero h)
  rwa [patternUnits_zero] at hmono

theorem significand_pos {body : Nat} (h : body ≠ 0) : 0 < significand body := by
  have hpos := patternUnits_pos h
  rw [patternUnits_eq] at hpos
  exact Nat.pos_of_mul_pos_right hpos

/-- The remainder of two finite doubles is the double whose units are the remainder of their
    units. -/
theorem exists_remainder {body body' : Nat} (h : body < infinityPattern)
    (h' : body' < infinityPattern) (hne : body' ≠ 0) (negative negative' : Bool) :
    ∃ rest, rest < infinityPattern ∧ patternUnits rest = patternUnits body % patternUnits body' ∧
      remainder (ofPattern negative body) (ofPattern negative' body')
        = ofPattern negative rest := by
  have hpos := patternUnits_pos hne
  rcases exists_mod_eq (significand_lt body) (significand_lt body') (significand_pos hne)
    (shift body) (shift body') with ⟨m, k, hmod, hm⟩
  rw [← patternUnits_eq, ← patternUnits_eq] at hmod
  rcases exists_patternUnits hm k with ⟨rest, hrest⟩
  rw [← hmod] at hrest
  have hless : patternUnits rest < patternUnits body' := by
    rw [hrest]
    exact Nat.mod_lt _ hpos
  have hbound := (patternUnits_strictMono.lt_iff_lt.mp hless).trans h'
  refine ⟨rest, hbound, hrest, ?_⟩
  rw [remainder, parts_ofPattern h, parts_ofPattern h']
  dsimp only
  rw [if_neg (Nat.ne_of_gt hpos), ofUnits, ← hrest, pattern_patternUnits hbound]

/-- What is no number has no remainder and leaves none, and so do an infinite dividend and a zero
    divisor. -/
theorem remainder_eq_nan {a b : Float}
    (h : parts a = .nan ∨ parts b = .nan ∨ (∃ negative, parts a = .infinite negative) ∨
      ∃ negative, parts b = .finite negative 0) : remainder a b = nan := by
  rcases h with ha | hb | ⟨negative, ha⟩ | ⟨negative, hb⟩
  · rw [remainder, ha]
  · rcases ha : parts a with _ | negative | ⟨negative, m⟩ <;> rw [remainder, ha, hb]
  · rcases hb : parts b with _ | negative' | ⟨negative', n⟩ <;> rw [remainder, ha, hb]
  · rcases ha : parts a with _ | negative' | ⟨negative', m⟩ <;> rw [remainder, ha, hb]
    exact if_pos rfl

theorem remainder_infinite {a b : Float} {negative negative' : Bool} {m : Nat}
    (ha : parts a = .finite negative m) (hb : parts b = .infinite negative') :
    remainder a b = a := by
  rw [remainder, ha, hb]

/-- A rational number, with a minus sign for a negative double. -/
def signed (negative : Bool) (q : ℚ) : ℚ :=
  if negative then -q else q

section Signs

variable (negative negative' : Bool) (p q : ℚ)

theorem abs_signed : |signed negative q| = |q| := by
  cases negative with
  | false => rfl
  | true => exact abs_neg q

theorem signed_add : signed negative (p + q) = signed negative p + signed negative q := by
  cases negative with
  | false => rfl
  | true => exact neg_add p q

-- Two factors with signs, of which the other one's is undone.
theorem signed_mul_signed : signed (negative ^^ negative') p * signed negative' q
    = signed negative (p * q) := by
  cases negative with
  | false => cases negative' with
    | false => rfl
    | true => exact neg_mul_neg p q
  | true => cases negative' with
    | false => exact neg_mul p q
    | true => exact mul_neg p q

theorem signed_div_signed : signed negative p / signed negative' q
    = signed (negative ^^ negative') (p / q) := by
  cases negative with
  | false => cases negative' with
    | false => rfl
    | true => exact div_neg p
  | true => cases negative' with
    | false => exact neg_div q p
    | true => exact neg_div_neg_eq p q

end Signs

/-- A rational number cut off toward zero. -/
def truncated (q : ℚ) : ℤ :=
  if 0 ≤ q then ⌊q⌋ else ⌈q⌉

/-- Numbers of either sign are cut off alike. -/
theorem truncated_signed {q : ℚ} (hq : 0 ≤ q) (negative : Bool) :
    (truncated (signed negative q) : ℚ) = signed negative ⌊q⌋ := by
  cases negative with
  | false => exact congrArg Int.cast (if_pos hq)
  | true =>
      change ((truncated (-q) : ℤ) : ℚ) = -(⌊q⌋ : ℚ)
      rcases eq_or_lt_of_le hq with rfl | hpos
      · rw [neg_zero, truncated, if_pos le_rfl, Int.floor_zero, Int.cast_zero, neg_zero]
      · rw [truncated, if_neg (not_le_of_gt (neg_neg_of_pos hpos)), Int.ceil_neg, Int.cast_neg]

/-- What remains of a number of units when the quotient is cut off is the remainder of the units,
    with the sign of the dividend. -/
theorem truncated_mul_add {m n : Nat} {unit : ℚ} (hn : 0 < n) (hunit : 0 < unit)
    (negative negative' : Bool) :
    signed negative (m / unit)
      = truncated (signed negative (m / unit) / signed negative' (n / unit))
          * signed negative' (n / unit) + signed negative ((m % n : ℕ) / unit) := by
  have hn' : (0 : ℚ) < n := Nat.cast_pos.mpr hn
  have hquotient : truncated (signed negative (m / unit) / signed negative' (n / unit))
      = signed (negative ^^ negative') (m / n : ℕ) := by
    rw [signed_div_signed, div_div_div_cancel_right₀ hunit.ne',
      truncated_signed (div_nonneg (Nat.cast_nonneg m) hn'.le), Rat.floor_natCast_div_natCast,
      ← Int.natCast_div, Int.cast_natCast]
  have hwhole : (m / unit : ℚ) = (m / n : ℕ) * (n / unit) + (m % n : ℕ) / unit := by
    rw [← mul_div_assoc, ← add_div, ← Nat.cast_mul, ← Nat.cast_add, Nat.div_add_mod']
  calc signed negative (m / unit)
      = signed negative ((m / n : ℕ) * (n / unit)) + signed negative ((m % n : ℕ) / unit) := by
        rw [← signed_add, ← hwhole]
    _ = truncated (signed negative (m / unit) / signed negative' (n / unit))
          * signed negative' (n / unit) + signed negative ((m % n : ℕ) / unit) := by
        rw [hquotient, signed_mul_signed]

/-- The number that a sign and the pattern of a finite magnitude stand for. -/
theorem rational?_signed {body : Nat} (h : body < infinityPattern) (negative : Bool) :
    rational? (ofPattern negative body) = some (signed negative (magnitude body)) := by
  rw [rational?, parts_ofPattern h]
  cases negative with
  | false => rfl
  | true => rfl

/-- The double of some bits consists of their sign and of the pattern below it. -/
theorem ofBits_eq_ofPattern {bits : UInt64} (h : bits.toNat % signWeight ≤ infinityPattern) :
    Float.ofBits bits
      = ofPattern (decide (signWeight ≤ bits.toNat)) (bits.toNat % signWeight) := by
  have hbits := eq_ofPattern (Float.ofBits bits)
  rw [toBits_ofBits h] at hbits
  exact hbits

-- What a double is taken apart into, by its bits.
theorem parts_ofBits_finite {bits : UInt64} (h : bits.toNat % signWeight < infinityPattern) :
    parts (Float.ofBits bits)
      = .finite (decide (signWeight ≤ bits.toNat)) (patternUnits (bits.toNat % signWeight)) := by
  rw [ofBits_eq_ofPattern (Nat.le_of_lt h), parts_ofPattern h]

theorem parts_ofBits_infinite {bits : UInt64} (h : bits.toNat % signWeight = infinityPattern) :
    ∃ negative, parts (Float.ofBits bits) = .infinite negative := by
  rw [ofBits_eq_ofPattern (Nat.le_of_eq h), h]
  generalize decide (signWeight ≤ bits.toNat) = negative
  refine ⟨negative, ?_⟩
  cases negative with
  | false => decide +kernel
  | true => decide +kernel

theorem signWeight_le_toBits_iff {negative : Bool} {body : Nat} (h : body ≤ infinityPattern) :
    signWeight ≤ (ofPattern negative body).toBits.toNat ↔ negative = true := by
  have hless := lt_signWeight_of_le h
  rw [toBits_ofPattern h]
  cases negative with
  | false =>
      rw [Bool.toNat_false]
      exact iff_of_false (by omega) Bool.false_ne_true
  | true =>
      rw [Bool.toNat_true]
      exact iff_of_true (by omega) rfl

/-- The remainder of any two doubles, by their bits. Below the sign bit these are the pattern of
    the infinity, or one above it for what is no number, or one below it for a finite double.

    * It is no number if one of the two is none, the dividend is infinite, or the divisor is
      zero.
    * It is the dividend with all its bits if that is finite and the divisor is infinite.
    * Otherwise it is what remains, without any rounding, if the exact quotient is cut off toward
      zero, and it has the sign bit of the dividend, also if nothing remains. -/
theorem remainder_exact (x y : UInt64) :
    (infinityPattern < x.toNat % signWeight ∨ infinityPattern < y.toNat % signWeight ∨
        x.toNat % signWeight = infinityPattern ∨ y.toNat % signWeight = 0 →
      parts (Operator.remainder.apply (Float.ofBits x) (Float.ofBits y)) = .nan) ∧
    (x.toNat % signWeight < infinityPattern → y.toNat % signWeight = infinityPattern →
      (Operator.remainder.apply (Float.ofBits x) (Float.ofBits y)).toBits = x) ∧
    (x.toNat % signWeight < infinityPattern → y.toNat % signWeight < infinityPattern →
      y.toNat % signWeight ≠ 0 →
      ∃ p q r, rational? (Float.ofBits x) = some p ∧ rational? (Float.ofBits y) = some q ∧
        rational? (Operator.remainder.apply (Float.ofBits x) (Float.ofBits y)) = some r ∧
        p = truncated (p / q) * q + r ∧ |r| < |q| ∧
        (signWeight ≤ (Operator.remainder.apply (Float.ofBits x) (Float.ofBits y)).toBits.toNat
          ↔ signWeight ≤ x.toNat)) := by
  refine ⟨fun h => ?_, fun hx hy => ?_, fun hx hy hne => ?_⟩
  · have hnan : remainder (Float.ofBits x) (Float.ofBits y) = nan := by
      refine remainder_eq_nan ?_
      rcases h with h | h | h | h
      · exact Or.inl (parts_ofBits_nan h)
      · exact Or.inr (Or.inl (parts_ofBits_nan h))
      · exact Or.inr (Or.inr (Or.inl (parts_ofBits_infinite h)))
      · have hy : y.toNat % signWeight < infinityPattern := by rw [h]; decide
        refine Or.inr (Or.inr (Or.inr ⟨decide (signWeight ≤ y.toNat), ?_⟩))
        rw [parts_ofBits_finite hy, h, patternUnits_zero]
    exact (congrArg parts hnan).trans parts_nan
  · rcases parts_ofBits_infinite hy with ⟨negative, hinfinite⟩
    have hdividend := remainder_infinite (parts_ofBits_finite hx) hinfinite
    exact (congrArg Float.toBits hdividend).trans (toBits_ofBits (Nat.le_of_lt hx))
  · rw [ofBits_eq_ofPattern (Nat.le_of_lt hx), ofBits_eq_ofPattern (Nat.le_of_lt hy)]
    generalize x.toNat % signWeight = body at hx
    generalize y.toNat % signWeight = body' at hy hne
    rcases exists_remainder hx hy hne (decide (signWeight ≤ x.toNat))
      (decide (signWeight ≤ y.toNat)) with ⟨rest, hrest, hunits, hremainder⟩
    have hpos := patternUnits_pos hne
    have hvalue : Operator.remainder.apply (ofPattern (decide (signWeight ≤ x.toNat)) body)
        (ofPattern (decide (signWeight ≤ y.toNat)) body')
          = ofPattern (decide (signWeight ≤ x.toNat)) rest := hremainder
    rw [hvalue, signWeight_le_toBits_iff (Nat.le_of_lt hrest), decide_eq_true_iff]
    refine ⟨_, _, _, rational?_signed hx _, rational?_signed hy _, rational?_signed hrest _, ?_, ?_,
      Iff.rfl⟩
    · rw [magnitude, magnitude, magnitude, hunits]
      exact truncated_mul_add hpos unitsPerOne_pos _ _
    · rw [abs_signed, abs_signed, abs_of_nonneg (magnitude_nonneg _),
        abs_of_nonneg (magnitude_nonneg _)]
      refine magnitude_strictMono (patternUnits_strictMono.lt_iff_lt.mp ?_)
      rw [hunits]
      exact Nat.mod_lt _ hpos

/-- The negative double of the largest magnitude by three units, with a quotient of more than two
    thousand bits; by an infinity; and by zero. -/
theorem largest_by_three_units :
    ((0xFFEFFFFFFFFFFFFF : UInt64).toNat % signWeight < infinityPattern ∧
      (0x0000000000000003 : UInt64).toNat % signWeight < infinityPattern ∧
      (0x0000000000000003 : UInt64).toNat % signWeight ≠ 0 ∧
      (Operator.remainder.apply (Float.ofBits 0xFFEFFFFFFFFFFFFF)
        (Float.ofBits 0x0000000000000003)).toBits = 0x8000000000000002 ∧
      ∃ p q r, rational? (Float.ofBits 0xFFEFFFFFFFFFFFFF) = some p ∧
        rational? (Float.ofBits 0x0000000000000003) = some q ∧
        rational? (Operator.remainder.apply (Float.ofBits 0xFFEFFFFFFFFFFFFF)
          (Float.ofBits 0x0000000000000003)) = some r ∧
        p = truncated (p / q) * q + r ∧ |r| < |q|) ∧
    ((0x7FF0000000000000 : UInt64).toNat % signWeight = infinityPattern ∧
      (Operator.remainder.apply (Float.ofBits 0xFFEFFFFFFFFFFFFF)
        (Float.ofBits 0x7FF0000000000000)).toBits = 0xFFEFFFFFFFFFFFFF) ∧
    ((0x8000000000000000 : UInt64).toNat % signWeight = 0 ∧
      parts (Operator.remainder.apply (Float.ofBits 0xFFEFFFFFFFFFFFFF)
        (Float.ofBits 0x8000000000000000)) = .nan) := by
  have hlargest : (0xFFEFFFFFFFFFFFFF : UInt64).toNat % signWeight < infinityPattern := by decide
  have hthree : (0x0000000000000003 : UInt64).toNat % signWeight < infinityPattern := by decide
  have hne : (0x0000000000000003 : UInt64).toNat % signWeight ≠ 0 := by decide
  have hinfinite : (0x7FF0000000000000 : UInt64).toNat % signWeight = infinityPattern := by decide
  have hzero : (0x8000000000000000 : UInt64).toNat % signWeight = 0 := by decide
  have hbits : (Operator.remainder.apply (Float.ofBits 0xFFEFFFFFFFFFFFFF)
      (Float.ofBits 0x0000000000000003)).toBits = 0x8000000000000002 := by decide +kernel
  rcases (remainder_exact 0xFFEFFFFFFFFFFFFF 0x0000000000000003).2.2 hlargest hthree hne with
    ⟨p, q, r, hp, hq, hr, hexact, hless, -⟩
  exact ⟨⟨hlargest, hthree, hne, hbits, p, q, r, hp, hq, hr, hexact, hless⟩,
    ⟨hinfinite, (remainder_exact 0xFFEFFFFFFFFFFFFF 0x7FF0000000000000).2.1 hlargest hinfinite⟩,
    ⟨hzero, (remainder_exact 0xFFEFFFFFFFFFFFFF 0x8000000000000000).1
      (Or.inr (Or.inr (Or.inr hzero)))⟩⟩

end Binary64

end Reckoner
