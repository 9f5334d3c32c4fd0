import Mathlib
import Reckoner.Proofs.Decimal.Shortest
import Reckoner.Proofs.Literal.Exact

/-!
# What Written Numbers Stand For

The number that a written text denotes, and the forms that the texts have.

A text is read here as people read it. A minus sign in front turns the number over, what stands
before the letter `e` is a decimal in the notation of literals, and what stands behind it is a
power of ten with a sign of its own (`denoted`). This says nothing of how the
text was written, and the two notations are shown to denote the decimal that they are written
from (`isPositional_positional`, `isScientific_scientific`).

The forms are canonical: there are no zeros that could be left out (`IsScientific`,
`IsPositional`). This holds of decimals whose digits do not end in a zero, and those
that the search finds do not.

## Main definitions

* `Decimal.exponentOf`, `Decimal.denotedMagnitude`, `Decimal.denoted`: The number that a text
  stands for.
* `Decimal.IsScientific`: One digit, perhaps a fraction, and an exponent with its sign.
* `Decimal.IsPositional`: Digits on both sides of a point.

## Theorems

* `denoted_signed`: A sign in front of a text.
* `spelled_whole`, `spelled_dotted`: What digits spell, and what digits around a point do.
* `denotedMagnitude_digitsOf`: An integer.
* `isPositional_positional`: Positional notation.
* `value_of_exponent_eq_zero`, `isScientific_scientific`: Exponent notation.
-/

namespace Reckoner

namespace Decimal

open Binary64 (signed)

/-- The power of ten behind the letter of a text, a sign and digits. -/
def exponentOf : List Char → ℤ
  | [] => 0
  | sign :: digits =>
    if sign = '-' then -(Nat.ofDigitChars 10 digits 0 : ℕ) else (Nat.ofDigitChars 10 digits 0 : ℕ)

/-- The number that a text without a sign stands for: a decimal, and the power of ten behind the
    letter if there is one. -/
def denotedMagnitude (text : List Char) : ℚ :=
  Literal.spelled (text.takeWhile (· != 'e'))
    * 10 ^ exponentOf ((text.dropWhile (· != 'e')).drop 1)

/-- The number that a text stands for. -/
def denoted : List Char → ℚ
  | [] => 0
  | c :: text => if c = '-' then -denotedMagnitude text else denotedMagnitude (c :: text)

/-- Exponent notation: a digit that is not zero, perhaps a point and a fraction, and the
    exponent with its sign. -/
def IsScientific (text : List Char) : Prop :=
  ∃ first behind sign exponent, text = first :: behind ++ 'e' :: sign :: exponent ∧
    IsNumeral [first] ∧ (behind = [] ∨ ∃ fraction, behind = '.' :: fraction ∧ IsFraction fraction) ∧
    (sign = '+' ∨ sign = '-') ∧ IsNumeral exponent

/-- Positional notation with a point: a zero or a numeral in front of it, and a fraction. -/
def IsPositional (text : List Char) : Prop :=
  ∃ whole fraction, text = whole ++ '.' :: fraction ∧ (whole = ['0'] ∨ IsNumeral whole) ∧
    IsFraction fraction

section Texts

variable {whole fraction text : List Char}

-- A digit is neither the letter nor a sign.
theorem ne_letter_of_isDigit {c : Char} (h : c.isDigit = true) : (c != 'e') = true := by
  rw [bne_iff_ne]
  rintro rfl
  exact absurd h Bool.false_ne_true

theorem ne_sign_of_isDigit {c : Char} (h : c.isDigit = true) : c ≠ '-' := by
  rintro rfl
  exact absurd h Bool.false_ne_true

/-- A minus sign in front of a text that begins with a digit turns the number over. -/
theorem denoted_signed {c : Char} (hc : c.isDigit = true) (negative : Bool) (text : List Char) :
    denoted (Layout.signed negative (c :: text))
      = signed negative (denotedMagnitude (c :: text)) := by
  cases negative with
  | false => exact if_neg (ne_sign_of_isDigit hc)
  | true => rfl

/-- Without the letter there is no power of ten. -/
theorem denotedMagnitude_of_not_mem (h : ∀ c ∈ text, (c != 'e') = true) :
    denotedMagnitude text = Literal.spelled text := by
  have hall : text.takeWhile (· != 'e') = text := List.takeWhile_eq_self_iff.mpr h
  have hnone : text.dropWhile (· != 'e') = [] := List.dropWhile_eq_nil_iff.mpr h
  rw [denotedMagnitude, hall, hnone, List.drop_nil, exponentOf, zpow_zero, mul_one]

/-- With the letter the decimal in front of it is multiplied by the power of ten. -/
theorem denotedMagnitude_append (h : ∀ c ∈ text, (c != 'e') = true) (written : List Char) :
    denotedMagnitude (text ++ 'e' :: written)
      = Literal.spelled text * 10 ^ exponentOf written := by
  rw [denotedMagnitude, List.takeWhile_append_of_pos h, List.dropWhile_append_of_pos h,
    List.takeWhile_cons_of_neg (by decide), List.dropWhile_cons_of_neg (by decide), List.append_nil,
    List.drop_succ_cons, List.drop_zero]

variable (hwhole : ∀ c ∈ whole, c.isDigit = true)
include hwhole

theorem ne_letter_of_mem_dotted (hfraction : ∀ c ∈ fraction, c.isDigit = true) :
    ∀ c ∈ whole ++ '.' :: fraction, (c != 'e') = true := by
  refine List.forall_mem_append.mpr ⟨fun c hc => ne_letter_of_isDigit (hwhole c hc), ?_⟩
  exact List.forall_mem_cons.mpr ⟨rfl, fun c hc => ne_letter_of_isDigit (hfraction c hc)⟩

/-- Digits spell their number. -/
theorem spelled_whole : Literal.spelled whole = Nat.ofDigitChars 10 whole 0 := by
  rw [Literal.spelled_eq, Literal.wholePart_whole hwhole, Literal.fractionPart_whole hwhole,
    List.append_nil, List.length_nil, Nat.pow_eq, Nat.pow_zero, Nat.cast_one, div_one]

/-- Digits behind a point are so many places. -/
theorem spelled_dotted (hfraction : ∀ c ∈ fraction, c.isDigit = true) :
    Literal.spelled (whole ++ '.' :: fraction)
      = Nat.ofDigitChars 10 (whole ++ fraction) 0 * 10 ^ (-(fraction.length : ℤ)) := by
  rw [Literal.spelled_eq, Literal.wholePart_dotted hwhole, Literal.fractionPart_dotted hwhole,
    Literal.wholePart_whole hfraction, Nat.pow_eq, Nat.cast_pow, Nat.cast_ofNat, zpow_neg,
    zpow_natCast, div_eq_mul_inv]

end Texts

/-- All digits of an integer denote it. -/
theorem denotedMagnitude_digitsOf (n : Nat) : denotedMagnitude (digitsOf n) = n := by
  rw [denotedMagnitude_of_not_mem fun c hc => ne_letter_of_isDigit (isDigit_of_mem_digitsOf c hc),
    spelled_whole isDigit_of_mem_digitsOf, ofDigitChars_digitsOf]

/-- So do digits around a point, with as many places as stand behind it. -/
theorem denotedMagnitude_dotted {whole fraction : List Char}
    (hwhole : ∀ c ∈ whole, c.isDigit = true) (hfraction : ∀ c ∈ fraction, c.isDigit = true) :
    denotedMagnitude (whole ++ '.' :: fraction)
      = Nat.ofDigitChars 10 (whole ++ fraction) 0 * 10 ^ (-(fraction.length : ℤ)) := by
  rw [denotedMagnitude_of_not_mem (ne_letter_of_mem_dotted hwhole hfraction),
    spelled_dotted hwhole hfraction]

section Notations

variable {d : Decimal} (hpos : 0 < d.digits) (hmod : d.digits % 10 ≠ 0)
include hpos hmod

/-- A decimal that is no integer has the form of positional notation around its point. -/
theorem exists_positional {behind : Nat} (hexponent : d.exponent = -(behind + 1 : ℤ)) :
    ∃ whole fraction, d.positional = whole ++ '.' :: fraction ∧
      (whole = ['0'] ∨ IsNumeral whole) ∧ IsFraction fraction ∧ fraction.length = behind + 1 ∧
      Nat.ofDigitChars 10 (whole ++ fraction) 0 = d.digits := by
  rcases d with ⟨n, e⟩
  have hnumeral : IsNumeral (digitsOf n) := isNumeral_digitsOf hpos
  have hfraction : IsFraction (digitsOf n) := isFraction_digitsOf hmod
  have he : e = .negSucc behind := hexponent
  subst he
  rcases positional_negSucc n behind with ⟨whole, fraction, htext, hlength, hdigits,
    ⟨count, hcount, hless, rfl, rfl⟩ | ⟨zeros, rfl, rfl⟩⟩
  · exact ⟨_, _, htext, Or.inr (hnumeral.take hcount), hfraction.drop hless, hlength, hdigits⟩
  · exact ⟨_, _, htext, Or.inl rfl, hfraction.append isDigit_of_mem_zeros, hlength, hdigits⟩

/-- Positional notation of a decimal that is no integer has the form and denotes the decimal. -/
theorem isPositional_positional (hexponent : d.exponent < 0) :
    IsPositional d.positional ∧ denotedMagnitude d.positional = d.value := by
  rcases Int.eq_negSucc_of_lt_zero hexponent with ⟨behind, hbehind⟩
  rcases exists_positional hpos hmod hbehind with
    ⟨whole, fraction, htext, hwhole, hfraction, hlength, hdigits⟩
  have hall : ∀ c ∈ whole, c.isDigit = true := by
    rcases hwhole with rfl | hnumeral
    · exact List.forall_mem_singleton.mpr rfl
    · exact hnumeral.2.1
  refine ⟨⟨whole, fraction, htext, hwhole, hfraction⟩, ?_⟩
  rw [htext, denotedMagnitude_dotted hall hfraction.2.1, hdigits, hlength, value, hbehind]
  rfl

/-- In exponent notation one digit stands in front and the others behind a point, and what is
    written behind the letter is an exponent that makes up for these. -/
theorem exists_scientific (plus : List Char) :
    ∃ first behind written, d.scientific plus = first :: behind ++ 'e' :: written ∧
      IsNumeral [first] ∧
      (behind = [] ∨ ∃ fraction, behind = '.' :: fraction ∧ IsFraction fraction) ∧
      Literal.spelled (first :: behind)
        = d.digits * 10 ^ (-((digitsOf d.digits).length - 1 : ℕ) : ℤ) ∧
      ∀ n : ℕ, (d.exponent + ((digitsOf d.digits).length - 1 : ℕ) = n →
          written = plus ++ digitsOf n) ∧
        (d.exponent + ((digitsOf d.digits).length - 1 : ℕ) = .negSucc n →
          written = '-' :: digitsOf (n + 1)) := by
  have hnumeral := isNumeral_digitsOf hpos
  have hfraction := isFraction_digitsOf hmod
  have hdigits := ofDigitChars_digitsOf d.digits
  unfold scientific
  dsimp only
  rcases hall : digitsOf d.digits with _ | ⟨first, rest⟩
  · exact absurd hall (digitsOf_ne_nil _)
  · rw [hall] at hnumeral hfraction hdigits
    have hfirst : IsNumeral [first] := hnumeral.take Nat.one_pos
    rcases rest with _ | ⟨next, rest⟩
    · refine ⟨first, [], _, rfl, hfirst, Or.inl rfl, ?_, fun n => ⟨fun h => ?_, fun h => ?_⟩⟩
      · rw [spelled_whole hfirst.2.1, hdigits]
        exact (mul_one _).symm
      · rw [h]
      · rw [h]
    · have hrest : IsFraction (next :: rest) := hfraction.drop (show 1 < _ by simp)
      refine ⟨first, '.' :: next :: rest, _, rfl, hfirst, Or.inr ⟨_, rfl, hrest⟩, ?_,
        fun n => ⟨fun h => ?_, fun h => ?_⟩⟩
      · rw [← hdigits]
        exact spelled_dotted hfirst.2.1 hrest.2.1
      · rw [h]
      · rw [h]

omit hmod in
/-- With a zero behind the letter a decimal is at least one and less than ten. -/
theorem value_of_exponent_eq_zero
    (hexponent : d.exponent + ((digitsOf d.digits).length - 1 : ℕ) = 0) :
    1 ≤ d.value ∧ d.value < 10 := by
  have hhigh := lt_pow_length_digitsOf d.digits
  have hlow := pow_length_digitsOf_le hpos
  have hlength : (digitsOf d.digits).length = (digitsOf d.digits).length - 1 + 1 :=
    (Nat.sub_add_cancel Nat.length_toDigits_pos).symm
  generalize (digitsOf d.digits).length - 1 = behind at hexponent hlength
  rw [hlength, pow_ten_succ] at hhigh hlow
  have hpow : (0 : ℚ) < (Nat.pow 10 behind : ℕ) := Nat.cast_pos.mpr (pow_ten_pos behind)
  have hvalue : d.value = d.digits / (Nat.pow 10 behind : ℕ) := by
    have hneg : d.exponent = -(behind : ℤ) := by omega
    rw [value, hneg, zpow_neg, zpow_natCast, Nat.pow_eq, Nat.cast_pow, Nat.cast_ofNat,
      div_eq_mul_inv]
  rw [hvalue, le_div_iff₀ hpow, div_lt_iff₀ hpow, one_mul]
  have hten : ((10 * Nat.pow 10 behind : ℕ) : ℚ) = 10 * (Nat.pow 10 behind : ℕ) := by
    rw [Nat.cast_mul, Nat.cast_ofNat]
  rw [← hten]
  exact ⟨Nat.cast_le.mpr (Nat.le_of_mul_le_mul_left hlow (Nat.succ_pos 9)), Nat.cast_lt.mpr hhigh⟩

-- What is written behind the letter, if it is not a zero.
omit hpos hmod in
theorem exists_exponent {e : ℤ} (he : e ≠ 0) {written : List Char}
    (hwritten : ∀ n : ℕ, (e = n → written = ['+'] ++ digitsOf n) ∧
      (e = .negSucc n → written = '-' :: digitsOf (n + 1))) :
    ∃ sign digits, written = sign :: digits ∧ (sign = '+' ∨ sign = '-') ∧ IsNumeral digits ∧
      exponentOf written = e := by
  rcases e with n | n
  · have hn : 0 < n := Nat.pos_of_ne_zero fun hzero => he (congrArg Int.ofNat hzero)
    rw [(hwritten n).1 rfl]
    refine ⟨'+', digitsOf n, rfl, Or.inl rfl, isNumeral_digitsOf hn, ?_⟩
    rw [List.singleton_append, exponentOf, if_neg (by decide), ofDigitChars_digitsOf]
    rfl
  · rw [(hwritten n).2 rfl]
    refine ⟨'-', digitsOf (n + 1), rfl, Or.inr rfl, isNumeral_digitsOf (Nat.succ_pos n), ?_⟩
    rw [exponentOf, if_pos rfl, ofDigitChars_digitsOf]
    rfl

/-- Exponent notation has its form and denotes the decimal, unless the exponent is zero. -/
theorem isScientific_scientific
    (hexponent : d.exponent + ((digitsOf d.digits).length - 1 : ℕ) ≠ 0) :
    IsScientific (d.scientific ['+']) ∧ denotedMagnitude (d.scientific ['+']) = d.value := by
  rcases exists_scientific hpos hmod ['+'] with
    ⟨first, behind, written, htext, hfirst, hbehind, hspelled, hwritten⟩
  rcases exists_exponent hexponent hwritten with
    ⟨sign, digits, hsign, hsigns, hdigits, hvalue⟩
  refine ⟨⟨first, behind, sign, digits, ?_, hfirst, hbehind, hsigns, hdigits⟩, ?_⟩
  · rw [htext, hsign]
  · have hletters : ∀ c ∈ first :: behind, (c != 'e') = true := by
      rcases hbehind with rfl | ⟨fraction, rfl, hfraction⟩
      · exact fun c hc => ne_letter_of_isDigit (hfirst.2.1 c hc)
      · exact ne_letter_of_mem_dotted hfirst.2.1 hfraction.2.1
    rw [htext, denotedMagnitude_append hletters, hspelled, hvalue, value, mul_assoc,
      ← zpow_add₀ (by decide)]
    congr 2
    omega

-- The point, the exponent and both signs count.
example : denoted "-2.5e+3".toList = -2500 := by decide +kernel

end Notations

end Decimal

end Reckoner
