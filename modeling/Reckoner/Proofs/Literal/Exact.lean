import Reckoner.Expr.Value
import Reckoner.Proofs.Binary64.Nearest
import Reckoner.Proofs.Literal.Reading

/-!
# Literals Are Read Exactly

The value of a literal is the double nearest to what the literal spells, whatever its length.

What a text spells is said here without the reader. The text is cut at its second dot if it
has one (`beforeDot`), and the decimal in front of the cut is taken digit by digit: each
digit in front of the dot is one more place, and each digit behind it counts a
tenth of what it would count one place further left (`spelled`). This is a
rational number for any text, and no power of ten and no number of places occurs in it.

The reader goes about it in another way. It collects the digits of both parts, takes them for a
single natural number, and divides by as many tens as there are digits behind the
dot. The two numbers are the same (`spelled_eq`), and what is nearest to
the quotient has been found out already. So a text has exactly one double as its value or
none, and which of these is the case depends on its characters and on nothing else
(`value_eq_ok_iff`).

## Main definitions

* `Literal.beforeDot`: The part of a text before the dot that is one too many.
* `Literal.digit`: The number that a digit stands for.
* `Literal.tenths`, `Literal.spelledAfter`, `Literal.spelled`: The number that a text spells.

## Theorems

* `beforeDot_of_count_le`, `beforeDot_append`: Where a text is cut, if it is.
* `beforeDot_zero`, `filter_beforeDot`: The parts that the reader knows.
* `isValid_iff`: Which texts the reader takes.
* `add_tenths`, `spelledAfter_beforeDot`, `spelled_eq`: What is spelled is a quotient.
* `value_eq_ok_iff`: Which text has which value.
* `read_exactly`: What is read, what is not, and what comes out at both ends of the range.
-/

namespace Reckoner

namespace Literal

open Binary64 (nearest parts IsNearest isNearest_nearest)

/-- The part of a text before the dot that follows some number of others, or all of the text if it
    has no more dots than these. -/
def beforeDot : Nat → List Char → List Char
  | _, [] => []
  | dots, c :: rest =>
    if c ≠ '.' then c :: beforeDot dots rest
    else if dots = 0 then []
    else c :: beforeDot (dots - 1) rest

/-- The number that a digit stands for. -/
def digit (c : Char) : ℚ :=
  (c.toNat - '0'.toNat : ℕ)

/-- The number that digits behind a dot spell. -/
def tenths : List Char → ℚ
  | [] => 0
  | c :: rest => (digit c + tenths rest) / 10

/-- The number that a decimal spells if the digits of `whole` stand in front of it. -/
def spelledAfter (whole : ℚ) : List Char → ℚ
  | [] => whole
  | c :: rest => if c = '.' then whole + tenths rest else spelledAfter (10 * whole + digit c) rest

/-- The number that a text spells: what stands before its second dot, as a decimal. -/
def spelled (text : List Char) : ℚ :=
  spelledAfter 0 (beforeDot 1 text)

section Cut

variable {dots : Nat} {c : Char}

theorem beforeDot_cons_of_ne (hc : c ≠ '.') (rest : List Char) :
    beforeDot dots (c :: rest) = c :: beforeDot dots rest := by
  rw [beforeDot, if_pos hc]

theorem beforeDot_zero_cons_dot (rest : List Char) : beforeDot 0 ('.' :: rest) = [] := by
  rw [beforeDot, if_neg (not_not_intro rfl), if_pos rfl]

theorem beforeDot_succ_cons_dot (rest : List Char) :
    beforeDot (dots + 1) ('.' :: rest) = '.' :: beforeDot dots rest := by
  rw [beforeDot, if_neg (not_not_intro rfl), if_neg (Nat.succ_ne_zero dots), Nat.add_sub_cancel]

/-- A text with few dots is not cut. -/
theorem beforeDot_of_count_le {text : List Char} (h : text.count '.' ≤ dots) :
    beforeDot dots text = text := by
  induction text generalizing dots with
  | nil => rw [beforeDot]
  | cons c rest ih =>
      by_cases hc : c = '.'
      · subst hc
        rw [List.count_cons_self] at h
        cases dots with
        | zero => exact absurd h (Nat.not_succ_le_zero _)
        | succ dots => rw [beforeDot_succ_cons_dot, ih (Nat.le_of_succ_le_succ h)]
      · rw [List.count_cons_of_ne hc] at h
        rw [beforeDot_cons_of_ne hc, ih h]

/-- Other texts are cut at the dot that is one too many. -/
theorem beforeDot_append {front : List Char} (h : front.count '.' = dots) (rest : List Char) :
    beforeDot dots (front ++ '.' :: rest) = front := by
  induction front generalizing dots with
  | nil =>
      rw [← h]
      exact beforeDot_zero_cons_dot rest
  | cons c front ih =>
      rw [List.cons_append]
      by_cases hc : c = '.'
      · subst hc
        rw [List.count_cons_self] at h
        rw [← h, beforeDot_succ_cons_dot, ih rfl]
      · rw [List.count_cons_of_ne hc] at h
        rw [beforeDot_cons_of_ne hc, ih h]

end Cut

section Parts

variable {c : Char}

theorem wholePart_cons_of_ne (hc : c ≠ '.') (rest : List Char) :
    wholePart (c :: rest) = c :: wholePart rest := by
  have hkept : (c != '.') = true := bne_iff_ne.mpr hc
  rw [wholePart, List.takeWhile_cons, if_pos hkept, wholePart]

theorem fractionPart_cons_of_ne (hc : c ≠ '.') (rest : List Char) :
    fractionPart (c :: rest) = fractionPart rest := by
  have hkept : (c != '.') = true := bne_iff_ne.mpr hc
  rw [fractionPart, List.dropWhile_cons, if_pos hkept, fractionPart]

theorem wholePart_cons_dot (rest : List Char) : wholePart ('.' :: rest) = [] :=
  rfl

theorem fractionPart_cons_dot (rest : List Char) : fractionPart ('.' :: rest) = wholePart rest :=
  rfl

-- The two parts that the reader knows are those of what stands before the second dot.
theorem beforeDot_zero (text : List Char) : beforeDot 0 text = wholePart text := by
  induction text with
  | nil => rfl
  | cons c rest ih =>
      by_cases hc : c = '.'
      · subst hc
        rw [beforeDot_zero_cons_dot, wholePart_cons_dot]
      · rw [beforeDot_cons_of_ne hc, wholePart_cons_of_ne hc, ih]

theorem filter_beforeDot (text : List Char) :
    (beforeDot 1 text).filter (· != '.') = wholePart text ++ fractionPart text := by
  induction text with
  | nil => rfl
  | cons c rest ih =>
      by_cases hc : c = '.'
      · subst hc
        have hall : (wholePart rest).filter (· != '.') = wholePart rest :=
          List.filter_eq_self.mpr (List.all_eq_true.mp List.all_takeWhile)
        rw [beforeDot_succ_cons_dot, wholePart_cons_dot, fractionPart_cons_dot, List.nil_append,
          List.filter_cons_of_neg (by decide), beforeDot_zero, hall]
      · have hkept : (c != '.') = true := bne_iff_ne.mpr hc
        rw [beforeDot_cons_of_ne hc, wholePart_cons_of_ne hc, fractionPart_cons_of_ne hc,
          List.filter_cons, if_pos hkept, ih, List.cons_append]

end Parts

-- What is kept of a text is in it.
theorem beforeDot_isPrefix (dots : Nat) (text : List Char) : beforeDot dots text <+: text := by
  induction text generalizing dots with
  | nil => exact List.prefix_refl []
  | cons c rest ih =>
      rw [beforeDot]
      split
      · exact List.cons_prefix_cons.mpr ⟨rfl, ih dots⟩
      · split
        · exact List.nil_prefix
        · exact List.cons_prefix_cons.mpr ⟨rfl, ih (dots - 1)⟩

/-- The reader takes digits and dots with a digit before the second dot. -/
theorem isValid_iff {text : List Char} :
    isValid text = true ↔ (∀ c ∈ text, c.isDigit = true ∨ c = '.') ∧
      ∃ c ∈ beforeDot 1 text, c.isDigit = true := by
  have hchars : (text.all fun c => c.isDigit || c == '.') = true ↔
      ∀ c ∈ text, c.isDigit = true ∨ c = '.' := by
    simp only [List.all_eq_true, Bool.or_eq_true, beq_iff_eq]
  rw [isValid, ← filter_beforeDot, Bool.and_eq_true, hchars, Bool.not_eq_true',
    List.isEmpty_eq_false_iff]
  refine and_congr_right fun hall => ⟨fun hne => ?_, ?_⟩
  · rcases List.exists_mem_of_ne_nil _ hne with ⟨c, hc⟩
    rw [List.mem_filter] at hc
    have hdot : c ≠ '.' := bne_iff_ne.mp hc.2
    exact ⟨c, hc.1, (hall c ((beforeDot_isPrefix 1 text).mem hc.1)).resolve_right hdot⟩
  · rintro ⟨c, hc, hdigit⟩
    exact List.ne_nil_of_mem (List.mem_filter.mpr ⟨hc, ne_dot_of_isDigit hdigit⟩)

-- One more digit behind a number.
theorem cast_ten_mul_add (whole : Nat) (c : Char) :
    ((10 * whole + (c.toNat - '0'.toNat) : ℕ) : ℚ) = 10 * whole + digit c := by
  rw [Nat.cast_add, Nat.cast_mul, Nat.cast_ofNat, digit]

-- Digits behind a dot are a number over a power of ten.
theorem add_tenths (whole : Nat) (fraction : List Char) :
    whole + tenths fraction = Nat.ofDigitChars 10 fraction whole / 10 ^ fraction.length := by
  induction fraction generalizing whole with
  | nil => rw [tenths, Nat.ofDigitChars_nil, List.length_nil, pow_zero, div_one, add_zero]
  | cons c rest ih =>
      calc (whole : ℚ) + tenths (c :: rest)
          = ((10 * whole + (c.toNat - '0'.toNat) : ℕ) + tenths rest) / 10 := by
            rw [cast_ten_mul_add, tenths]
            ring
        _ = Nat.ofDigitChars 10 (c :: rest) whole / 10 ^ (c :: rest).length := by
            rw [ih, Nat.ofDigitChars_cons, List.length_cons, pow_succ, div_div]

/-- The quotient that the reader rounds is what is spelled. -/
theorem spelledAfter_beforeDot (whole : Nat) (text : List Char) :
    spelledAfter whole (beforeDot 1 text)
      = Nat.ofDigitChars 10 (wholePart text ++ fractionPart text) whole
          / 10 ^ (fractionPart text).length := by
  induction text generalizing whole with
  | nil => exact (div_one _).symm
  | cons c rest ih =>
      by_cases hc : c = '.'
      · subst hc
        rw [beforeDot_succ_cons_dot, spelledAfter, if_pos rfl, beforeDot_zero, wholePart_cons_dot,
          fractionPart_cons_dot, List.nil_append, add_tenths]
      · rw [beforeDot_cons_of_ne hc, spelledAfter, if_neg hc, ← cast_ten_mul_add, ih,
          wholePart_cons_of_ne hc, fractionPart_cons_of_ne hc, List.cons_append,
          Nat.ofDigitChars_cons]

theorem spelled_eq (text : List Char) :
    spelled text = Nat.ofDigitChars 10 (wholePart text ++ fractionPart text) 0
      / (Nat.pow 10 (fractionPart text).length : ℕ) := by
  have hspelled := spelledAfter_beforeDot 0 text
  rw [Nat.cast_zero] at hspelled
  rw [spelled, hspelled, Nat.pow_eq, Nat.cast_pow, Nat.cast_ofNat]

theorem spelled_nonneg (text : List Char) : 0 ≤ spelled text := by
  rw [spelled_eq]
  exact div_nonneg (Nat.cast_nonneg _) (Nat.cast_nonneg _)

theorem value_of_isValid {text : String} (h : isValid text.toList = true) :
    ∃ x, value text = .ok x ∧ IsNearest (spelled text.toList) x := by
  have hvalue : value? text
      = some (nearest
          (Nat.ofDigitChars 10 (wholePart text.toList ++ fractionPart text.toList) 0)
          (Nat.pow 10 (fractionPart text.toList).length)) := if_pos h
  refine ⟨_, by rw [value, hvalue], ?_⟩
  rw [spelled_eq]
  exact isNearest_nearest _ (Nat.pow_pos (Nat.succ_pos 9))

theorem value_of_not_isValid {text : String} (h : ¬isValid text.toList = true) :
    value text = .error (.invalidNumber text) := by
  have hvalue : value? text = none := if_neg h
  rw [value, hvalue]

/-- A literal is read if it consists of digits and dots with a digit before the second dot, and its
    value is nearest to what it spells. -/
theorem value_eq_ok_iff {text : String} {x : Float} :
    value text = .ok x ↔ (∀ c ∈ text.toList, c.isDigit = true ∨ c = '.') ∧
      (∃ c ∈ beforeDot 1 text.toList, c.isDigit = true) ∧ IsNearest (spelled text.toList) x := by
  rw [← and_assoc, ← isValid_iff]
  by_cases hvalid : isValid text.toList = true
  · rcases value_of_isValid hvalid with ⟨y, hy, hnearest⟩
    rw [hy, Except.ok.injEq]
    refine ⟨?_, fun h => hnearest.unique h.2⟩
    rintro rfl
    exact ⟨hvalid, hnearest⟩
  · rw [value_of_not_isValid hvalid]
    refine ⟨fun h => ?_, fun h => absurd h.1 hvalid⟩
    cases h

/-- Literals are read exactly. A text has a value if and only if it consists of digits and dots
    and has a digit before its second dot. The value is the only double that is nearest to
    what is spelled there, the infinity from `2 ^ 1024 - 2 ^ 970` on and zero up to half of the
    smallest double. What follows the second dot has no influence on it, and a text without
    a value is complained about as a whole. -/
theorem read_exactly (text : String) :
    ((∃ x, value text = .ok x) ↔ (∀ c ∈ text.toList, c.isDigit = true ∨ c = '.') ∧
      ∃ c ∈ beforeDot 1 text.toList, c.isDigit = true) ∧
    (∀ x, value text = .ok x →
      (∀ y, IsNearest (spelled text.toList) y ↔ y = x) ∧
      (parts x = .infinite false ↔ 2 ^ 1024 - 2 ^ 970 ≤ spelled text.toList) ∧
      (parts x = .finite false 0 ↔ spelled text.toList ≤ 1 / 2 ^ 1075)) ∧
    (∀ front rest, text.toList = front ++ '.' :: rest → front.count '.' = 1 →
      (∀ c ∈ rest, c.isDigit = true ∨ c = '.') →
      ∀ x, value text = .ok x ↔ value (String.ofList front) = .ok x) ∧
    (∀ cause, value text = .error cause → cause = .invalidNumber text) := by
  refine ⟨⟨?_, ?_⟩, fun x hx => ?_, fun front rest htext hfront hrest x => ?_,
    fun cause hcause => ?_⟩
  · rintro ⟨x, hx⟩
    rcases value_eq_ok_iff.mp hx with ⟨hall, hsome, -⟩
    exact ⟨hall, hsome⟩
  · intro hform
    rcases value_of_isValid (isValid_iff.mpr hform) with ⟨x, hx, -⟩
    exact ⟨x, hx⟩
  · rcases value_eq_ok_iff.mp hx with ⟨-, -, hnearest⟩
    refine ⟨fun y => ⟨fun hy => hy.unique hnearest, ?_⟩, hnearest.parts_eq_infinite_iff,
      hnearest.parts_eq_zero_iff (spelled_nonneg _)⟩
    rintro rfl
    exact hnearest
  · -- Both texts are cut to the same one, and the rest is digits and dots.
    have hcut : beforeDot 1 text.toList = front := by rw [htext, beforeDot_append hfront]
    have hwhole : beforeDot 1 front = front := beforeDot_of_count_le (Nat.le_of_eq hfront)
    have hall : (∀ c ∈ text.toList, c.isDigit = true ∨ c = '.') ↔
        ∀ c ∈ front, c.isDigit = true ∨ c = '.' := by
      rw [htext, List.forall_mem_append, List.forall_mem_cons]
      exact and_iff_left ⟨Or.inr rfl, hrest⟩
    rw [value_eq_ok_iff, value_eq_ok_iff, String.toList_ofList, hall, spelled, spelled, hcut,
      hwhole]
  · by_cases hvalid : isValid text.toList = true
    · rcases value_of_isValid hvalid with ⟨x, hx, -⟩
      rw [hx] at hcause
      cases hcause
    · rw [value_of_not_isValid hvalid, Except.error.injEq] at hcause
      exact hcause.symm

/-- The number next above `2 ^ 53` lies halfway between two doubles, and the lower one is even. -/
theorem tie_read_to_even :
    value "9007199254740993.0.7" = .ok (nearest 9007199254740992 1) ∧
      spelled "9007199254740993.0.7".toList = 9007199254740993 ∧
      IsNearest 9007199254740993 (nearest 9007199254740992 1) := by
  have hvalue : value "9007199254740993.0.7" = .ok (nearest 9007199254740992 1) := by
    decide +kernel
  have hspelled : spelled "9007199254740993.0.7".toList = 9007199254740993 := by
    decide +kernel
  have hnearest := (((read_exactly _).2.1 _ hvalue).1 _).mpr rfl
  rw [hspelled] at hnearest
  exact ⟨hvalue, hspelled, hnearest⟩

end Literal

end Reckoner
