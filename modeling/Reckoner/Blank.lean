/-!
# Blanks

The characters that separate tokens without being one. They are those with the
`White_Space` property, which is wider than the ASCII blanks: it has the
no-break space, the ideographic space and the two line separators, but neither
the zero-width space nor the byte order mark.

## Main definitions

* `blankRanges`: The code points of the property, as closed ranges.
* `isBlank`: Whether a character is a blank.
* `trim`: A text without the blanks at its two ends.
* `IsTrimmed`: What trimming is meant to do.

## Theorems

* `isBlank_of_visible`: The visible ASCII characters are no blanks.
* `isTrimmed_iff`: Trimming does what it is meant to do, and nothing else would.
-/

namespace Reckoner

/-- The code points with the `White_Space` property, as closed ranges in increasing order. -/
def blankRanges : List (Nat × Nat) :=
  [(0x0009, 0x000D), (0x0020, 0x0020), (0x0085, 0x0085), (0x00A0, 0x00A0), (0x1680, 0x1680),
   (0x2000, 0x200A), (0x2028, 0x2029), (0x202F, 0x202F), (0x205F, 0x205F), (0x3000, 0x3000)]

/-- Whether a character has the `White_Space` property. -/
def isBlank (c : Char) : Bool :=
  blankRanges.any fun (first, last) => first ≤ c.toNat && c.toNat ≤ last

/-- A text without the blanks at its two ends. -/
def trim (text : List Char) : List Char :=
  ((text.dropWhile isBlank).reverse.dropWhile isBlank).reverse

theorem isBlank_of_visible {c : Char} (h : 33 ≤ c.toNat ∧ c.toNat ≤ 126) : isBlank c = false := by
  simp only [isBlank, blankRanges, List.any_cons, List.any_nil, Bool.or_eq_false_iff,
    Bool.and_eq_false_iff, decide_eq_false_iff_not, and_true]
  omega

/-- One text is the other without the blanks at its two ends: there are only blanks around it, and
    it neither begins nor ends with one. -/
structure IsTrimmed (text trimmed : List Char) : Prop where
  around : ∃ front behind, text = front ++ trimmed ++ behind ∧
    (∀ c ∈ front, isBlank c = true) ∧ ∀ c ∈ behind, isBlank c = true
  head : ∀ c ∈ trimmed.head?, isBlank c = false
  last : ∀ c ∈ trimmed.getLast?, isBlank c = false

-- Where no blank stands in front nothing is dropped.
theorem dropWhile_isBlank {text : List Char} (h : ∀ c ∈ text.head?, isBlank c = false) :
    text.dropWhile isBlank = text := by
  cases text with
  | nil => rfl
  | cons c rest =>
    have hc : isBlank c = false := h c rfl
    rw [List.dropWhile_cons_of_neg (by rw [hc]; exact Bool.false_ne_true)]

-- What is left behind the blanks in front begins with none.
theorem isBlank_head?_dropWhile (text : List Char) :
    ∀ c ∈ (text.dropWhile isBlank).head?, isBlank c = false := by
  intro c hc
  have h := List.head?_dropWhile_not isBlank text
  rw [Option.mem_def.mp hc] at h
  simpa using h

theorem isTrimmed_trim (text : List Char) : IsTrimmed text (trim text) := by
  have hsplit : text.dropWhile isBlank
      = trim text ++ ((text.dropWhile isBlank).reverse.takeWhile isBlank).reverse := by
    rw [trim, ← List.reverse_append, List.takeWhile_append_dropWhile, List.reverse_reverse]
  refine ⟨⟨text.takeWhile isBlank, ((text.dropWhile isBlank).reverse.takeWhile isBlank).reverse,
    ?_, ?_, ?_⟩, ?_, ?_⟩
  · rw [List.append_assoc, ← hsplit, List.takeWhile_append_dropWhile]
  · intro c hc
    exact List.all_eq_true.mp List.all_takeWhile c hc
  · intro c hc
    exact List.all_eq_true.mp List.all_takeWhile c (List.mem_reverse.mp hc)
  · -- It begins like what is left behind the blanks in front.
    intro c hc
    refine isBlank_head?_dropWhile text c ?_
    rw [hsplit, List.head?_append, hc]
    rfl
  · intro c hc
    rw [trim, List.getLast?_reverse] at hc
    exact isBlank_head?_dropWhile _ c hc

/-- Trimming takes the blanks at the two ends away and nothing else, and there is only one way to do
    that. -/
theorem isTrimmed_iff {text trimmed : List Char} :
    IsTrimmed text trimmed ↔ trim text = trimmed := by
  constructor
  · rintro ⟨⟨front, behind, rfl, hfront, hbehind⟩, hhead, hlast⟩
    unfold trim
    rw [List.append_assoc, List.dropWhile_append_of_pos hfront]
    have hbehind' : ∀ c ∈ behind.reverse, isBlank c = true :=
      fun c hc => hbehind c (List.mem_reverse.mp hc)
    rcases trimmed with _ | ⟨c, rest⟩
    · -- There are blanks only, which all are dropped.
      rw [List.nil_append, ← List.append_nil behind, List.dropWhile_append_of_pos hbehind]
      rfl
    · have hdrop : (c :: rest ++ behind).dropWhile isBlank = c :: rest ++ behind :=
        dropWhile_isBlank hhead
      have hdrop' : (c :: rest).reverse.dropWhile isBlank = (c :: rest).reverse := by
        refine dropWhile_isBlank ?_
        rw [List.head?_reverse]
        exact hlast
      rw [hdrop, List.reverse_append, List.dropWhile_append_of_pos hbehind', hdrop',
        List.reverse_reverse]
  · rintro rfl
    exact isTrimmed_trim text

end Reckoner
