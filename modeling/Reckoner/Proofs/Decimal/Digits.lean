import Mathlib
import Reckoner.Proofs.Decimal.ReadBack

/-!
# The Digits of a Number

How many digits a number has, and with which of them it begins and ends.

The digits of a number are those of a tenth of it, rounded down, and one more
(`digitsOf_of_ten_le`). So their count tells between which powers of ten the number lies,
the first of them is not zero unless the number is, and the last one is zero only if ten
divides the number.

Two kinds of digit strings occur in written numbers. What stands in front of a point, or
makes up an exponent, has no zero in front (`IsNumeral`); what stands behind a point has
none at the end (`IsFraction`).

## Main definitions

* `Decimal.IsNumeral`: Digits without a leading zero.
* `Decimal.IsFraction`: Digits without a trailing zero.

## Theorems

* `digitsOf_of_ten_le`: All digits but the last.
* `lt_pow_length_digitsOf`, `pow_length_digitsOf_le`: The count of the digits.
* `isNumeral_digitsOf`, `isFraction_digitsOf`: How they begin and end.
* `IsNumeral.take`, `IsFraction.drop`: Some of them in front of a point and some behind it.
* `IsFraction.append`: Digits in front of a fraction.
-/

namespace Reckoner

namespace Decimal

/-- Digits without a leading zero, at least one. -/
def IsNumeral (digits : List Char) : Prop :=
  digits ≠ [] ∧ (∀ c ∈ digits, c.isDigit = true) ∧ digits.head? ≠ some '0'

/-- Digits without a trailing zero, at least one. -/
def IsFraction (digits : List Char) : Prop :=
  digits ≠ [] ∧ (∀ c ∈ digits, c.isDigit = true) ∧ digits.getLast? ≠ some '0'

theorem pow_ten_pos (n : Nat) : 0 < Nat.pow 10 n :=
  Nat.pow_pos (Nat.succ_pos 9)

theorem pow_ten_add (m n : Nat) : Nat.pow 10 (m + n) = Nat.pow 10 m * Nat.pow 10 n :=
  Nat.pow_add 10 m n

theorem pow_ten_succ (n : Nat) : Nat.pow 10 (n + 1) = 10 * Nat.pow 10 n :=
  Nat.pow_succ'

section Digits

variable {n : Nat}

/-- From ten on there are the digits of a tenth and one more. -/
theorem digitsOf_of_ten_le (h : 10 ≤ n) :
    digitsOf n = digitsOf (n / 10) ++ [Nat.digitChar (n % 10)] :=
  Nat.toDigits_of_base_le (by decide) h

theorem digitsOf_of_lt_ten (h : n < 10) : digitsOf n = [Nat.digitChar n] :=
  Nat.toDigits_of_lt_base h

-- Of the ten digits only one is written as a zero.
theorem digitChar_ne_zero (hpos : 0 < n) (h : n < 10) : Nat.digitChar n ≠ '0' := by
  have hall : ∀ m < 10, 0 < m → Nat.digitChar m ≠ '0' := by decide
  exact hall n h hpos

/-- The count of the digits says between which powers of ten a number lies. -/
theorem lt_pow_length_digitsOf (n : Nat) : n < Nat.pow 10 (digitsOf n).length :=
  (Nat.length_toDigits_le_iff (by decide) Nat.length_toDigits_pos).mp (Nat.le_refl _)

theorem pow_length_digitsOf_le (hpos : 0 < n) : Nat.pow 10 (digitsOf n).length ≤ 10 * n := by
  rcases hlength : (digitsOf n).length with _ | _ | k
  · exact Nat.mul_pos (Nat.succ_pos 9) hpos
  · exact Nat.mul_le_mul_left 10 hpos
  · have hmore : ¬n < Nat.pow 10 (k + 1) := by
      intro hless
      have hle := (Nat.length_toDigits_le_iff (by decide) (Nat.succ_pos k)).mpr hless
      rw [digitsOf] at hlength
      omega
    rw [pow_ten_succ]
    exact Nat.mul_le_mul_left 10 (Nat.le_of_not_lt hmore)

/-- The digits of a number that is not zero have no leading zero. -/
theorem isNumeral_digitsOf (hpos : 0 < n) : IsNumeral (digitsOf n) := by
  refine ⟨digitsOf_ne_nil n, isDigit_of_mem_digitsOf, ?_⟩
  induction n using Nat.strong_induction_on with
  | _ n ih =>
    rcases Nat.lt_or_ge n 10 with hless | hge
    · rw [digitsOf_of_lt_ten hless, List.head?_cons, Ne, Option.some.injEq]
      exact digitChar_ne_zero hpos hless
    · rw [digitsOf_of_ten_le hge, List.head?_append_of_ne_nil _ (digitsOf_ne_nil _)]
      exact ih (n / 10) (Nat.div_lt_self hpos (by decide)) (Nat.div_pos hge (by decide))

/-- Those of a number that ten does not divide have no trailing zero. -/
theorem isFraction_digitsOf (hmod : n % 10 ≠ 0) : IsFraction (digitsOf n) := by
  have hlast : (digitsOf n).getLast? = some (Nat.digitChar (n % 10)) := by
    rcases Nat.lt_or_ge n 10 with hless | hge
    · rw [digitsOf_of_lt_ten hless, Nat.mod_eq_of_lt hless, List.getLast?_singleton]
    · rw [digitsOf_of_ten_le hge, List.getLast?_concat]
  refine ⟨digitsOf_ne_nil n, isDigit_of_mem_digitsOf, ?_⟩
  rw [hlast, Ne, Option.some.injEq]
  exact digitChar_ne_zero (Nat.pos_of_ne_zero hmod) (Nat.mod_lt n (Nat.succ_pos 9))

end Digits

section Parts

variable {digits : List Char} {k : Nat}

/-- Some of the first digits of a numeral are one. -/
theorem IsNumeral.take (h : IsNumeral digits) (hk : 0 < k) : IsNumeral (digits.take k) := by
  rcases h with ⟨hne, hdigits, hhead⟩
  rcases Nat.exists_eq_add_one_of_ne_zero (Nat.ne_of_gt hk) with ⟨k, rfl⟩
  refine ⟨?_, fun c hc => hdigits c (List.mem_of_mem_take hc), ?_⟩
  · rw [Ne, List.take_eq_nil_iff]
    exact not_or_intro (Nat.succ_ne_zero k) hne
  · rw [List.head?_take, if_neg (Nat.succ_ne_zero k)]
    exact hhead

/-- Some of the last digits of a fraction are one. -/
theorem IsFraction.drop (h : IsFraction digits) (hk : k < digits.length) :
    IsFraction (digits.drop k) := by
  rcases h with ⟨-, hdigits, hlast⟩
  refine ⟨?_, fun c hc => hdigits c (List.mem_of_mem_drop hc), ?_⟩
  · rw [Ne, List.drop_eq_nil_iff]
    exact Nat.not_le_of_lt hk
  · rw [List.getLast?_drop, if_neg (Nat.not_le_of_lt hk)]
    exact hlast

/-- More digits may stand in front of a fraction. -/
theorem IsFraction.append (h : IsFraction digits) {front : List Char}
    (hfront : ∀ c ∈ front, c.isDigit = true) : IsFraction (front ++ digits) := by
  rcases h with ⟨hne, hdigits, hlast⟩
  refine ⟨List.append_ne_nil_of_right_ne_nil front hne,
    List.forall_mem_append.mpr ⟨hfront, hdigits⟩, ?_⟩
  rw [List.getLast?_append_of_ne_nil _ hne]
  exact hlast

end Parts

end Decimal

end Reckoner
