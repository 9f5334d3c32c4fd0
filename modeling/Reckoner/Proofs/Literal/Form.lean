import Reckoner.Blank
import Reckoner.Literal.Basic

/-!
# The Form of Literals

Which texts are literals, said without a scanner.

A decimal is some digits, which may be followed by a dot and further digits; a
literal is a decimal or a dot and a decimal. `longestPrefix?` finds literals by
going through a text from the front. What it finds is a literal, and a literal is
found again with anything behind it that neither is a digit nor a dot, so the texts that
are literals are exactly those that the scanner takes as a whole.

A literal begins with a digit or a dot, and neither is a blank.

## Main definitions

* `Literal.IsDecimal`: Digits, and perhaps a dot and further digits.
* `Literal.IsLiteral`: A decimal, or a dot and a decimal.
* `Literal.EndsBefore`: No literal can go on into this text.

## Theorems

* `isLiteral_of_longestPrefix?`: What the scanner finds is a literal.
* `longestPrefix?_append`: A literal is found where it stands and is not cut off.
* `isLiteral_iff`: The literals are what the scanner takes as a whole.
* `head_of_isLiteral`: How a literal begins.
-/

namespace Reckoner

namespace Literal

/-- Digits, which may be followed by a dot and any number of further digits. -/
def IsDecimal (text : List Char) : Prop :=
  ∃ whole : List Char, whole ≠ [] ∧ (∀ c ∈ whole, c.isDigit = true) ∧
    (text = whole ∨
      ∃ fraction : List Char, (∀ c ∈ fraction, c.isDigit = true) ∧ text = whole ++ '.' :: fraction)

/-- A decimal, or a dot and a decimal behind it. -/
def IsLiteral (text : List Char) : Prop :=
  IsDecimal text ∨ ∃ decimal, text = '.' :: decimal ∧ IsDecimal decimal

/-- No literal can go on into this text. -/
def EndsBefore (rest : List Char) : Prop :=
  ∀ c ∈ rest.head?, c.isDigit = false ∧ c ≠ '.'

theorem endsBefore_nil : EndsBefore [] := by
  intro c hc
  cases hc

theorem mem_takeWhile_isDigit {text : List Char} {c : Char}
    (hc : c ∈ text.takeWhile Char.isDigit) : c.isDigit = true :=
  List.all_eq_true.mp List.all_takeWhile c hc

theorem takeWhile_ne_nil {text : List Char} (h : opensWithDigit text = true) :
    text.takeWhile Char.isDigit ≠ [] := by
  cases text with
  | nil => exact absurd h Bool.false_ne_true
  | cons c rest =>
      have hc : c.isDigit = true := h
      rw [List.takeWhile_cons_of_pos hc]
      exact List.cons_ne_nil _ _

-- The digits end where the text does, or where something else begins.
theorem takeWhile_append_of_not_digit {whole rest : List Char}
    (hwhole : ∀ c ∈ whole, c.isDigit = true) (hrest : ∀ c ∈ rest.head?, c.isDigit = false) :
    (whole ++ rest).takeWhile Char.isDigit = whole ∧
      (whole ++ rest).dropWhile Char.isDigit = rest := by
  rw [List.takeWhile_append_of_pos hwhole, List.dropWhile_append_of_pos hwhole]
  cases rest with
  | nil => exact ⟨List.append_nil whole, rfl⟩
  | cons c rest =>
      have hc : ¬c.isDigit = true := by
        rw [hrest c rfl]
        exact Bool.false_ne_true
      rw [List.takeWhile_cons_of_neg hc, List.dropWhile_cons_of_neg hc, List.append_nil]
      exact ⟨rfl, rfl⟩

theorem isDecimal_decimalPrefix {text : List Char} (h : opensWithDigit text = true) :
    IsDecimal (decimalPrefix text) := by
  refine ⟨text.takeWhile Char.isDigit, takeWhile_ne_nil h, fun c => mem_takeWhile_isDigit, ?_⟩
  unfold decimalPrefix
  rcases text.dropWhile Char.isDigit with _ | ⟨c, rest⟩
  · exact Or.inl (List.append_nil _)
  · rw [fractionPrefix]
    split
    · rename_i hc
      refine Or.inr ⟨rest.takeWhile Char.isDigit, fun c => mem_takeWhile_isDigit, ?_⟩
      rw [hc]
    · exact Or.inl (List.append_nil _)

/-- What the scanner finds is a literal. -/
theorem isLiteral_of_longestPrefix? {text literal : List Char}
    (h : longestPrefix? text = some literal) : IsLiteral literal := by
  unfold longestPrefix? at h
  split at h
  · cases h
  · rename_i c rest
    split at h
    · rename_i hc
      split at h
      · rename_i hopens
        rw [← Option.some.inj h, hc]
        exact Or.inr ⟨_, rfl, isDecimal_decimalPrefix hopens⟩
      · cases h
    · split at h
      · rename_i hopens
        rw [← Option.some.inj h]
        exact Or.inl (isDecimal_decimalPrefix hopens)
      · cases h

-- How a decimal begins, which is all that the scanner asks of it at first.
theorem opensWithDigit_append {decimal : List Char} (h : IsDecimal decimal) (rest : List Char) :
    opensWithDigit (decimal ++ rest) = true := by
  rcases h with ⟨whole, hne, hwhole, htext⟩
  rcases List.exists_cons_of_ne_nil hne with ⟨c, digits, rfl⟩
  have hc := hwhole c List.mem_cons_self
  rcases htext with rfl | ⟨fraction, -, rfl⟩
  · exact hc
  · exact hc

theorem decimalPrefix_append {decimal rest : List Char} (h : IsDecimal decimal)
    (hrest : EndsBefore rest) : decimalPrefix (decimal ++ rest) = decimal := by
  have hrest' : ∀ c ∈ rest.head?, c.isDigit = false := fun c hc => (hrest c hc).1
  rcases h with ⟨whole, -, hwhole, rfl | ⟨fraction, hfraction, rfl⟩⟩
  · rcases takeWhile_append_of_not_digit hwhole hrest' with ⟨htake, hdrop⟩
    rw [decimalPrefix, htake, hdrop]
    cases rest with
    | nil => exact List.append_nil _
    | cons c rest => rw [fractionPrefix, if_neg (hrest c rfl).2, List.append_nil]
  · rw [List.append_assoc, List.cons_append]
    rcases @takeWhile_append_of_not_digit whole ('.' :: (fraction ++ rest)) hwhole
      (fun c hc => by rw [← Option.some.inj hc]; rfl) with ⟨htake, hdrop⟩
    rw [decimalPrefix, htake, hdrop, fractionPrefix, if_pos rfl,
      (takeWhile_append_of_not_digit hfraction hrest').1]

/-- A literal is found where it stands and is not cut off. -/
theorem longestPrefix?_append {literal rest : List Char} (h : IsLiteral literal)
    (hrest : EndsBefore rest) : longestPrefix? (literal ++ rest) = some literal := by
  rcases h with hdecimal | ⟨decimal, rfl, hdecimal⟩
  · have hopens := opensWithDigit_append hdecimal rest
    have hprefix := decimalPrefix_append hdecimal hrest
    rcases htext : literal ++ rest with _ | ⟨c, text⟩
    · rw [htext] at hopens
      exact absurd hopens Bool.false_ne_true
    · rw [htext] at hopens hprefix
      have hc : c ≠ '.' := by
        rintro rfl
        exact absurd hopens Bool.false_ne_true
      rw [longestPrefix?, if_neg hc, if_pos hopens, hprefix]
  · rw [List.cons_append, longestPrefix?, if_pos rfl,
      if_pos (opensWithDigit_append hdecimal rest), decimalPrefix_append hdecimal hrest]

/-- The literals are what the scanner takes as a whole. -/
theorem isLiteral_iff {text : List Char} : IsLiteral text ↔ longestPrefix? text = some text := by
  constructor
  · intro h
    have hfound := longestPrefix?_append h endsBefore_nil
    rw [List.append_nil] at hfound
    exact hfound
  · exact isLiteral_of_longestPrefix?

instance (text : List Char) : Decidable (IsLiteral text) :=
  decidable_of_iff' _ isLiteral_iff

/-- How a literal begins. -/
theorem head_of_isLiteral {literal : List Char} (h : IsLiteral literal) :
    ∃ c text, literal = c :: text ∧ (c.isDigit = true ∨ c = '.') := by
  rcases h with ⟨whole, hne, hwhole, htext⟩ | ⟨decimal, rfl, -⟩
  · rcases List.exists_cons_of_ne_nil hne with ⟨c, digits, rfl⟩
    have hc := hwhole c List.mem_cons_self
    rcases htext with rfl | ⟨fraction, -, rfl⟩
    · exact ⟨c, _, rfl, Or.inl hc⟩
    · exact ⟨c, _, rfl, Or.inl hc⟩
  · exact ⟨'.', decimal, rfl, Or.inr rfl⟩

-- A digit is no blank.
theorem isBlank_of_isDigit {c : Char} (h : c.isDigit = true) : isBlank c = false := by
  simp only [Char.isDigit, Bool.and_eq_true, decide_eq_true_eq] at h
  have hbounds : 48 ≤ c.toNat ∧ c.toNat ≤ 57 := h
  exact isBlank_of_visible (by omega)

end Literal

end Reckoner
