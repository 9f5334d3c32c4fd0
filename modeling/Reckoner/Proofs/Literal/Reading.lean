import Mathlib.Data.List.TakeWhile
import Reckoner.Literal.Value
import Reckoner.Proofs.Literal.Form

/-!
# Reading Literals

That the scanner and the reader of literals agree on what a literal is.

The two know literals in different ways. The scanner goes by the form, digits with a dot
among them and perhaps one in front. The reader cuts a text at its second dot, wherever
that is, and counts what is left. The reader takes more: `1.2.3` has a value, and the
scanner would never make one token of it. What matters is that it takes no less, so that
no text that was scanned is refused later (`isValid_of_isLiteral`).

Of a text in positional notation, with one dot or none, the parts are seen at
once, and the value is that of the digits with as many places as stand behind the
dot (`value?_whole`, `value?_dotted`).

## Theorems

* `wholePart_whole`, `fractionPart_whole`, `wholePart_dotted`, `fractionPart_dotted`: The
  parts of digits and of digits before a dot.
* `isValid_of_isLiteral`: The form of literals is good enough for the reader.
* `value?_whole`, `value?_dotted`: The values of digits and of digits around a dot.
-/

namespace Reckoner

namespace Literal

theorem ne_dot_of_isDigit {c : Char} (h : c.isDigit = true) : (c != '.') = true := by
  rw [bne_iff_ne]
  rintro rfl
  exact absurd h Bool.false_ne_true

theorem isDigit_or_dot_of_isDigit {c : Char} (h : c.isDigit = true) :
    (c.isDigit || c == '.') = true := by
  rw [h, Bool.true_or]

section Parts

variable {whole fraction : List Char} (hwhole : ∀ c ∈ whole, c.isDigit = true)
include hwhole

-- Digits without a dot are all whole part.
theorem wholePart_whole : wholePart whole = whole :=
  List.takeWhile_eq_self_iff.mpr fun c hc => ne_dot_of_isDigit (hwhole c hc)

theorem fractionPart_whole : fractionPart whole = [] := by
  have hnone : whole.dropWhile (· != '.') = [] :=
    List.dropWhile_eq_nil_iff.mpr fun c hc => ne_dot_of_isDigit (hwhole c hc)
  rw [fractionPart, hnone]
  rfl

theorem wholePart_dotted (rest : List Char) : wholePart (whole ++ '.' :: rest) = whole := by
  rw [wholePart, List.takeWhile_append_of_pos fun c hc => ne_dot_of_isDigit (hwhole c hc),
    List.takeWhile_cons_of_neg (by decide), List.append_nil]

theorem fractionPart_dotted (rest : List Char) :
    fractionPart (whole ++ '.' :: rest) = wholePart rest := by
  rw [fractionPart, List.dropWhile_append_of_pos fun c hc => ne_dot_of_isDigit (hwhole c hc),
    List.dropWhile_cons_of_neg (by decide), List.drop_one, List.tail_cons, wholePart]

-- Digits have a value.
theorem isValid_whole (hne : whole ≠ []) : isValid whole = true := by
  rw [isValid, wholePart_whole hwhole, Bool.and_eq_true, List.all_eq_true, Bool.not_eq_true',
    List.isEmpty_eq_false_iff]
  exact ⟨fun c hc => isDigit_or_dot_of_isDigit (hwhole c hc),
    List.append_ne_nil_of_left_ne_nil hne _⟩

-- So have digits around a dot, if there is one at all.
theorem isValid_dotted (hfraction : ∀ c ∈ fraction, c.isDigit = true)
    (hne : whole ++ fraction ≠ []) : isValid (whole ++ '.' :: fraction) = true := by
  rw [isValid, wholePart_dotted hwhole, fractionPart_dotted hwhole, wholePart_whole hfraction,
    Bool.and_eq_true, List.all_eq_true, Bool.not_eq_true', List.isEmpty_eq_false_iff]
  refine ⟨fun c hc => ?_, hne⟩
  rw [List.mem_append, List.mem_cons] at hc
  rcases hc with hc | rfl | hc
  · exact isDigit_or_dot_of_isDigit (hwhole c hc)
  · rfl
  · exact isDigit_or_dot_of_isDigit (hfraction c hc)

end Parts

-- A dot in front makes the whole part of a text its fraction part.
theorem isValid_cons_dot {decimal : List Char} (h : isValid decimal = true)
    (hne : wholePart decimal ≠ []) : isValid ('.' :: decimal) = true := by
  rw [isValid, Bool.and_eq_true] at h
  rw [isValid, Bool.and_eq_true, List.all_cons, h.1, Bool.not_eq_true', List.isEmpty_eq_false_iff]
  exact ⟨rfl, List.append_ne_nil_of_right_ne_nil _ hne⟩

/-- The form of literals is good enough for the reader. -/
theorem isValid_of_isLiteral {text : List Char} (h : IsLiteral text) : isValid text = true := by
  have hdecimal : ∀ {decimal : List Char}, IsDecimal decimal →
      isValid decimal = true ∧ wholePart decimal ≠ [] := by
    rintro decimal ⟨whole, hne, hwhole, rfl | ⟨fraction, hfraction, rfl⟩⟩
    · refine ⟨isValid_whole hwhole hne, ?_⟩
      rw [wholePart_whole hwhole]
      exact hne
    · refine ⟨isValid_dotted hwhole hfraction (List.append_ne_nil_of_left_ne_nil hne _), ?_⟩
      rw [wholePart_dotted hwhole]
      exact hne
  rcases h with h | ⟨decimal, rfl, h⟩
  · exact (hdecimal h).1
  · exact isValid_cons_dot (hdecimal h).1 (hdecimal h).2

theorem value?_of_isValid {text : List Char} (h : isValid text = true) :
    value? (String.ofList text)
      = some (Binary64.nearest (Nat.ofDigitChars 10 (wholePart text ++ fractionPart text) 0)
          (Nat.pow 10 (fractionPart text).length)) := by
  unfold value?
  rw [String.toList_ofList]
  exact if_pos h

/-- The value of digits. -/
theorem value?_whole {whole : List Char} (hwhole : ∀ c ∈ whole, c.isDigit = true)
    (hne : whole ≠ []) :
    value? (String.ofList whole) = some (Binary64.nearest (Nat.ofDigitChars 10 whole 0) 1) := by
  rw [value?_of_isValid (isValid_whole hwhole hne), wholePart_whole hwhole,
    fractionPart_whole hwhole, List.append_nil]
  rfl

/-- The value of digits around a dot. -/
theorem value?_dotted {whole fraction : List Char} (hwhole : ∀ c ∈ whole, c.isDigit = true)
    (hfraction : ∀ c ∈ fraction, c.isDigit = true) (hne : whole ++ fraction ≠ []) :
    value? (String.ofList (whole ++ '.' :: fraction))
      = some (Binary64.nearest (Nat.ofDigitChars 10 (whole ++ fraction) 0)
          (Nat.pow 10 fraction.length)) := by
  rw [value?_of_isValid (isValid_dotted hwhole hfraction hne), wholePart_dotted hwhole,
    fractionPart_dotted hwhole, wholePart_whole hfraction]

end Literal

end Reckoner
