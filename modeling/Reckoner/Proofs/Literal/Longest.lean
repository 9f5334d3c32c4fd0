import Reckoner.Proofs.Literal.Form

/-!
# The Longest Literal

The literal that the scanner finds is the longest one at the front of the text.

The scanner is greedy: it takes digits as long as they last, a dot, and digits again.
Being greedy is being longest here for two reasons. Any literal at the front of a text
lies inside of what the scanner takes (`length_le_of_longestPrefix?`), and two
prefixes of one text are equal if they are equally long. So the scanner could have been
specified by the form of literals alone, and `longestPrefix?_eq_some_iff` and
`longestPrefix?_eq_none_iff` say so.

The beginnings of a literal are literals too, the empty one and a lone dot apart. A
literal that could be made longer could therefore be made longer by a single
character (`isLiteral_concat`).

## Theorems

* `IsDecimal.of_prefix`, `IsLiteral.of_prefix`: Beginnings of literals.
* `isLiteral_concat`: Literals grow by single characters.
* `longestPrefix?_isPrefix`: What is found stands at the front.
* `length_le_of_longestPrefix?`: No literal at the front is longer.
* `longestPrefix?_eq_some_iff`, `longestPrefix?_eq_none_iff`: What is found, and when
  nothing is, by the form of literals.
-/

namespace Reckoner

namespace Literal

/-- A beginning of a decimal is a decimal, unless it is empty. -/
theorem IsDecimal.of_prefix {decimal p : List Char} (h : IsDecimal decimal)
    (hp : p <+: decimal) (hne : p ≠ []) : IsDecimal p := by
  rcases h with ⟨whole, hwhole_ne, hwhole, rfl | ⟨fraction, hfraction, rfl⟩⟩
  · exact ⟨p, hne, fun c hc => hwhole c (hp.mem hc), Or.inl rfl⟩
  · -- The beginning ends inside of the whole part, or it has all of it.
    rcases List.prefix_or_prefix_of_prefix hp (List.prefix_append whole _) with
      hinside | ⟨behind, rfl⟩
    · exact ⟨p, hne, fun c hc => hwhole c (hinside.mem hc), Or.inl rfl⟩
    · rw [List.prefix_append_right_inj, List.prefix_cons_iff] at hp
      rcases hp with rfl | ⟨digits, rfl, hdigits⟩
      · exact ⟨whole, hwhole_ne, hwhole, Or.inl (List.append_nil whole)⟩
      · exact ⟨whole, hwhole_ne, hwhole,
          Or.inr ⟨digits, fun c hc => hfraction c (hdigits.mem hc), rfl⟩⟩

/-- A beginning of a literal is a literal, unless it is empty or a lone dot. -/
theorem IsLiteral.of_prefix {literal p : List Char} (h : IsLiteral literal)
    (hp : p <+: literal) (hne : p ≠ []) (hdot : p ≠ ['.']) : IsLiteral p := by
  rcases h with hdecimal | ⟨decimal, rfl, hdecimal⟩
  · exact Or.inl (hdecimal.of_prefix hp hne)
  · rcases List.prefix_cons_iff.mp hp with rfl | ⟨p', rfl, hp'⟩
    · exact absurd rfl hne
    · refine Or.inr ⟨p', rfl, hdecimal.of_prefix hp' ?_⟩
      rintro rfl
      exact hdot rfl

-- A literal that goes on behind some character is one up to that character.
theorem isLiteral_concat {front behind : List Char} {c : Char} (hne : front ≠ [])
    (h : IsLiteral (front ++ c :: behind)) : IsLiteral (front ++ [c]) := by
  have hp : front ++ [c] <+: front ++ c :: behind :=
    (List.prefix_append_right_inj front).mpr ⟨behind, rfl⟩
  refine h.of_prefix hp (List.append_ne_nil_of_left_ne_nil hne [c]) ?_
  intro hdot
  -- Otherwise there would be nothing before the dot.
  have hlen := congrArg List.length hdot
  have hpos := List.length_pos_iff.mpr hne
  rw [List.length_append, List.length_singleton, List.length_singleton] at hlen
  omega

theorem fractionPrefix_isPrefix (text : List Char) : fractionPrefix text <+: text := by
  cases text with
  | nil => exact List.prefix_refl []
  | cons c rest =>
      rw [fractionPrefix]
      split
      · exact List.cons_prefix_cons.mpr ⟨rfl, List.takeWhile_prefix _⟩
      · exact List.nil_prefix

theorem decimalPrefix_isPrefix (text : List Char) : decimalPrefix text <+: text := by
  have hrest := (List.prefix_append_right_inj (text.takeWhile Char.isDigit)).mpr
    (fractionPrefix_isPrefix (text.dropWhile Char.isDigit))
  rw [List.takeWhile_append_dropWhile] at hrest
  exact hrest

/-- What the scanner finds stands at the front of the text. -/
theorem longestPrefix?_isPrefix {text literal : List Char}
    (h : longestPrefix? text = some literal) : literal <+: text := by
  unfold longestPrefix? at h
  split at h
  · cases h
  · split at h
    · split at h
      · rw [← Option.some.inj h]
        exact List.cons_prefix_cons.mpr ⟨rfl, decimalPrefix_isPrefix _⟩
      · cases h
    · split at h
      · rw [← Option.some.inj h]
        exact decimalPrefix_isPrefix _
      · cases h

-- A decimal at the front lies inside of the digits, the dot and the digits that are
-- taken.
theorem length_le_decimalPrefix {decimal : List Char} (h : IsDecimal decimal)
    (rest : List Char) : decimal.length ≤ (decimalPrefix (decimal ++ rest)).length := by
  rcases h with ⟨whole, -, hwhole, rfl | ⟨fraction, hfraction, rfl⟩⟩
  · rw [decimalPrefix, List.takeWhile_append_of_pos hwhole, List.append_assoc,
      List.length_append]
    exact Nat.le_add_right _ _
  · have hdot : ∀ c ∈ ('.' :: (fraction ++ rest)).head?, c.isDigit = false := by
      intro c hc
      rw [← Option.some.inj hc]
      rfl
    rcases takeWhile_append_of_not_digit hwhole hdot with ⟨htake, hdrop⟩
    rw [List.append_assoc, List.cons_append, decimalPrefix, htake, hdrop, fractionPrefix,
      if_pos rfl, List.takeWhile_append_of_pos hfraction, List.length_append,
      List.length_append, List.length_cons, List.length_cons, List.length_append]
    omega

/-- Where a literal stands at the front of a text, the scanner finds one that is at
    least as long. -/
theorem length_le_of_longestPrefix? {text p : List Char} (h : IsLiteral p) (hp : p <+: text) :
    ∃ literal, longestPrefix? text = some literal ∧ p.length ≤ literal.length := by
  rcases hp with ⟨rest, rfl⟩
  rcases h with hdecimal | ⟨decimal, rfl, hdecimal⟩
  · have hopens := opensWithDigit_append hdecimal rest
    have hlen := length_le_decimalPrefix hdecimal rest
    rcases htext : p ++ rest with _ | ⟨c, text⟩
    · rw [htext] at hopens
      exact absurd hopens Bool.false_ne_true
    · rw [htext] at hopens hlen
      have hc : c ≠ '.' := by
        rintro rfl
        exact absurd hopens Bool.false_ne_true
      exact ⟨_, by rw [longestPrefix?, if_neg hc, if_pos hopens], hlen⟩
  · refine ⟨'.' :: decimalPrefix (decimal ++ rest), ?_, ?_⟩
    · rw [List.cons_append, longestPrefix?, if_pos rfl,
        if_pos (opensWithDigit_append hdecimal rest)]
    · rw [List.length_cons, List.length_cons]
      exact Nat.succ_le_succ (length_le_decimalPrefix hdecimal rest)

/-- What is found is the longest literal at the front of the text. -/
theorem longestPrefix?_eq_some_iff {text literal : List Char} :
    longestPrefix? text = some literal ↔
      IsLiteral literal ∧ literal <+: text ∧
        ∀ p, IsLiteral p → p <+: text → p.length ≤ literal.length := by
  constructor
  · intro h
    refine ⟨isLiteral_of_longestPrefix? h, longestPrefix?_isPrefix h, fun p hliteral hp => ?_⟩
    rcases length_le_of_longestPrefix? hliteral hp with ⟨found, hfound, hlen⟩
    rw [h, Option.some.injEq] at hfound
    rw [hfound]
    exact hlen
  · rintro ⟨hliteral, hp, hlongest⟩
    rcases length_le_of_longestPrefix? hliteral hp with ⟨found, hfound, hlen⟩
    have hfound_prefix := longestPrefix?_isPrefix hfound
    have hle := hlongest found (isLiteral_of_longestPrefix? hfound) hfound_prefix
    -- Both stand at the front of the text and are equally long.
    have hsame := (List.prefix_of_prefix_length_le hfound_prefix hp hle).eq_of_length_le hlen
    rw [hfound, hsame]

/-- Nothing is found where no literal stands. -/
theorem longestPrefix?_eq_none_iff {text : List Char} :
    longestPrefix? text = none ↔ ∀ p, IsLiteral p → ¬p <+: text := by
  constructor
  · intro h p hliteral hp
    rcases length_le_of_longestPrefix? hliteral hp with ⟨found, hfound, -⟩
    rw [h] at hfound
    cases hfound
  · intro h
    rcases hfound : longestPrefix? text with _ | literal
    · rfl
    · exact absurd (longestPrefix?_isPrefix hfound) (h _ (isLiteral_of_longestPrefix? hfound))

end Literal

end Reckoner
