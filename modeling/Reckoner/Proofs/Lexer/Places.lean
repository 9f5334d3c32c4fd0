import Reckoner.Proofs.Lexer.Cutting

/-!
# Places of Tokens

Where the tokens of a text begin.

A token carries no position. The lexer takes down where it was when it scanned one, and
what it has taken down so far depends on how much it was asked for. The places themselves
do not. `Lexer.places` computes them from the row of all tokens that a lexer would scan,
blanks included, by adding up their widths.

The two agree at every moment of a run. What has been taken down, followed by the
places of what is still to be scanned, never changes (`lexSolid_trail`): a scan moves
one entry from the second list to the first. So whatever a lexer has taken down is
the beginning of one list that the text alone determines, in which no token occurs twice
and the places increase.

## Main definitions

* `placed`: Tokens in a row with the places where they begin.
* `Lexer.places`: The tokens that are still to be scanned with their places.
* `Lexer.trail`: The tokens that have been scanned and those that will be.

## Theorems

* `lex_induction`: Induction along scanning.
* `places_of_stopped`, `places_of_lex`: The first place and the others.
* `places_standing`, `places_increasing`: The tokens stand at their places, which increase.
* `stream_tokens_eq_places`: The tokens at the places are those that are handed out.
* `lex_trail`, `lexSolid_trail`: Scanning moves an entry and keeps the trail.
-/

namespace Reckoner

/-- Of some tokens in a row those that are solid, each with the index at which it begins if the
    first of the row begins at the given one. -/
def placed : Nat → List Token → List (Token × Nat)
  | _, [] => []
  | start, t :: w =>
    if t.isSolid then (t, start) :: placed (start + t.width) w else placed (start + t.width) w

namespace Lexer

/-- The tokens that are still to be scanned, each with the index at which it begins. -/
def places (l : Lexer) : List (Token × Nat) :=
  placed l.position l.pieces.tokens

/-- The tokens that have been scanned and those that are still to be scanned, each with the index
    at which it begins. -/
def trail (l : Lexer) : List (Token × Nat) :=
  l.scanned.reverse ++ l.places

theorem lex_eq_error {l l' : Lexer} {cause : LexError} (h : l.lex = (.error cause, l')) :
    l' = l := by
  unfold lex at h
  split at h
  · cases h
  · exact (Prod.mk.inj h).2.symm

theorem lex_eq_ok {l l' : Lexer} {t : Token} (h : l.lex = (.ok t, l')) : l' = l.take t := by
  unfold lex at h
  split at h
  · rw [← (Prod.mk.inj h).2, Except.ok.inj (Prod.mk.inj h).1]
  · cases h

-- A scan that finds a token goes over the characters that spell it.
theorem unread_of_lex {l l' : Lexer} {t : Token} (h : l.lex = (.ok t, l')) :
    l.unread = t.spelling ++ l'.unread := by
  rcases lex_ok_cases h with ⟨rfl, -, rfl⟩ | ⟨c, rfl, -, hunread⟩ | ⟨-, hunread⟩
  · rfl
  · exact hunread
  · exact hunread

theorem position_of_lex {l l' : Lexer} {t : Token} (h : l.lex = (.ok t, l')) :
    l'.position = l.position + t.width := by
  have hextent : l'.extent = l.extent := by rw [← l.lex_extent, h]
  have hlength := congrArg List.length (unread_of_lex h)
  rw [extent, extent] at hextent
  rw [List.length_append] at hlength
  rw [Token.width]
  omega

/-- Induction along scanning, which comes to the end or to a character that begins no token. -/
theorem lex_induction {P : Lexer → Prop}
    (stopped : ∀ l : Lexer, (l.lex.1 = .ok .endOfInput ∨ ∃ cause, l.lex.1 = .error cause) → P l)
    (token : ∀ (l l' : Lexer) (t : Token), l.lex = (.ok t, l') → t ≠ .endOfInput →
      l'.unread.length < l.unread.length → P l' → P l) (l : Lexer) : P l := by
  induction hn : l.unread.length using Nat.strongRecOn generalizing l with
  | ind n ih =>
      rcases hlex : l.lex with ⟨cause | t, l'⟩
      · exact stopped l (Or.inr ⟨cause, by rw [hlex]⟩)
      · by_cases ht : t = .endOfInput
        · exact stopped l (Or.inl (by rw [hlex, ht]))
        · have hless := lex_unread_lt (congrArg Prod.fst hlex) ht
          rw [hlex] at hless
          dsimp only at hless
          exact token l l' t hlex ht hless (ih _ (by omega) l' rfl)

theorem pieces_of_stopped {l : Lexer}
    (h : l.lex.1 = .ok .endOfInput ∨ ∃ cause, l.lex.1 = .error cause) : l.pieces.tokens = [] := by
  rcases h with h | ⟨cause, h⟩
  · rw [pieces_of_ok h, if_pos rfl, TokenStream.tokens]
  · rw [pieces_of_error h, TokenStream.tokens]

theorem places_of_stopped {l : Lexer}
    (h : l.lex.1 = .ok .endOfInput ∨ ∃ cause, l.lex.1 = .error cause) : l.places = [] := by
  rw [places, pieces_of_stopped h, placed]

theorem places_of_lex {l l' : Lexer} {t : Token} (h : l.lex = (.ok t, l'))
    (ht : t ≠ .endOfInput) :
    l.places = if t.isSolid then (t, l.position) :: l'.places else l'.places := by
  rw [places, pieces_of_ok (congrArg Prod.fst h), if_neg ht, h, TokenStream.tokens, placed,
    ← position_of_lex h, places]

/-- The tokens stand at their places, which are not before the scanner. -/
theorem places_standing (l : Lexer) :
    ∀ entry ∈ l.places, l.position ≤ entry.2 ∧
      entry.1.spelling <+: l.unread.drop (entry.2 - l.position) := by
  induction l using lex_induction with
  | stopped l hstop =>
      rw [places_of_stopped hstop]
      exact nofun
  | token l l' t hlex ht _ ih =>
      have hunread := unread_of_lex hlex
      have hposition := position_of_lex hlex
      have hlater : ∀ entry ∈ l'.places, l.position ≤ entry.2 ∧
          entry.1.spelling <+: l.unread.drop (entry.2 - l.position) := by
        intro entry hentry
        rcases ih entry hentry with ⟨hle, hfront⟩
        have hplace : entry.2 - l.position = t.spelling.length + (entry.2 - l'.position) := by
          rw [Token.width] at hposition
          omega
        rw [hplace, ← List.drop_drop, hunread, List.drop_left]
        exact ⟨by omega, hfront⟩
      rw [places_of_lex hlex ht]
      split
      · refine List.forall_mem_cons.mpr ⟨⟨Nat.le_refl _, ?_⟩, hlater⟩
        rw [Nat.sub_self, List.drop_zero, hunread]
        exact List.prefix_append _ _
      · exact hlater

/-- The places increase. -/
theorem places_increasing (l : Lexer) : l.places.Pairwise (fun a b => a.2 < b.2) := by
  induction l using lex_induction with
  | stopped l hstop =>
      rw [places_of_stopped hstop]
      exact .nil
  | token l l' t hlex ht hless ih =>
      have hposition := position_of_lex hlex
      have hlength := congrArg List.length (unread_of_lex hlex)
      rw [List.length_append] at hlength
      rw [Token.width] at hposition
      rw [places_of_lex hlex ht]
      split
      · refine List.pairwise_cons.mpr ⟨fun entry hentry => ?_, ih⟩
        have hle := (l'.places_standing entry hentry).1
        dsimp only
        omega
      · exact ih

-- What is found depends on the unread characters and the position only.
theorem lex_congr {l l' : Lexer} (hunread : l'.unread = l.unread)
    (hposition : l'.position = l.position) :
    l'.lex.1 = l.lex.1 ∧ l'.lex.2.unread = l.lex.2.unread ∧
      l'.lex.2.position = l.lex.2.position := by
  unfold lex
  rw [hunread, hposition]
  split
  · simp only [take, skip, hunread, hposition, and_self]
  · exact ⟨rfl, hunread, hposition⟩

theorem places_congr {l l' : Lexer} (hunread : l'.unread = l.unread)
    (hposition : l'.position = l.position) : l'.places = l.places := by
  induction l using lex_induction generalizing l' with
  | stopped l hstop =>
      rw [places_of_stopped hstop, places_of_stopped]
      rw [(lex_congr hunread hposition).1]
      exact hstop
  | token l rest t hlex ht _ ih =>
      rcases lex_congr hunread hposition with ⟨hanswer, hunread', hposition'⟩
      rw [hlex] at hanswer hunread' hposition'
      have hlex' : l'.lex = (.ok t, l'.lex.2) := Prod.ext hanswer rfl
      rw [places_of_lex hlex ht, places_of_lex hlex' ht, ih hunread' hposition', hposition]

-- Scanning behind any blanks is scanning if it does not find a blank.
theorem lexSolid_eq_lex {l : Lexer} (h : ∀ c, l.lex.1 ≠ .ok (.blank c)) : l.lexSolid = l.lex := by
  rw [lexSolid, skipBlanks_eq_self]
  intro c hc
  rcases hunread : l.unread with _ | ⟨c', text⟩
  · rw [hunread] at hc
    cases hc
  · rw [hunread] at hc
    rw [Bool.eq_false_iff, ← Option.some.inj hc]
    intro hblank
    exact h c' (congrArg Prod.fst (lex_blank hunread hblank))

-- A lexer with nothing queued that cannot scan a token has none to hand out.
theorem stream_tokens_of_stopped {l : Lexer} (hqueue : l.queue = [])
    (h : l.lex.1 = .ok .endOfInput ∨ ∃ cause, l.lex.1 = .error cause) : l.stream.tokens = [] := by
  have hblank : ∀ c, l.lex.1 ≠ .ok (.blank c) := by
    rcases h with h | ⟨cause, h⟩
    · rw [h]
      exact nofun
    · rw [h]
      exact nofun
  have hlex := lexSolid_eq_lex hblank
  rcases h with h | ⟨cause, h⟩
  · have hnext := next_of_lexSolid_ok hqueue (hlex.trans (Prod.ext h rfl))
    rw [stream_of_end (congrArg Prod.fst hnext), TokenStream.tokens]
  · have hnext := next_of_lexSolid_error hqueue (hlex.trans (Prod.ext h rfl))
    rw [stream_of_error (congrArg Prod.fst hnext), TokenStream.tokens]

-- The tokens at the places cut the text, up to where nothing more can be scanned.
theorem tokenizes_places (l : Lexer) :
    ∃ rest, Tokenizes l.unread (l.places.map Prod.fst) rest ∧
      ∀ l' : Lexer, l'.unread = rest → l'.extent = l.extent → l'.queue = [] →
        l'.stream.tokens = [] := by
  induction l using lex_induction with
  | stopped l hstop =>
      rw [places_of_stopped hstop]
      refine ⟨l.unread, .done _, fun l' hunread hextent hqueue =>
        stream_tokens_of_stopped hqueue ?_⟩
      rw [extent, extent, hunread, Nat.add_right_cancel_iff] at hextent
      rw [(lex_congr hunread hextent).1]
      exact hstop
  | token l l' t hlex ht _ ih =>
      rcases ih with ⟨rest, htokens, hstopped⟩
      have hextent : l'.extent = l.extent := by rw [← l.lex_extent, hlex]
      rw [hextent] at hstopped
      refine ⟨rest, ?_, hstopped⟩
      rw [places_of_lex hlex ht]
      rcases lex_ok_cases hlex with ⟨hend, -⟩ | ⟨c, rfl, hc, hunread⟩ | ⟨hfound, hunread⟩
      · exact absurd hend ht
      · rw [hunread]
        exact .blank hc htokens
      · rw [hunread, if_pos hfound.solid]
        exact .token hfound.solid hfound.scan htokens

/-- The tokens at the places are those that a lexer with nothing queued hands out. -/
theorem stream_tokens_eq_places {l : Lexer} (hqueue : l.queue = []) :
    l.stream.tokens = l.places.map Prod.fst := by
  rcases l.tokenizes_places with ⟨rest, htokens, hstopped⟩
  rcases stream_of_tokenizes htokens l hqueue rfl with ⟨l', hqueue', hunread, hposition, hstream⟩
  rw [← hunread] at hposition
  rw [hstream, TokenStream.tokens_append, hstopped l' hunread hposition hqueue', List.append_nil]

theorem lex_trail (l : Lexer) : l.lex.2.trail = l.trail := by
  rcases hlex : l.lex with ⟨cause | t, l'⟩
  · rw [lex_eq_error hlex]
  · have htake := lex_eq_ok hlex
    by_cases ht : t = .endOfInput
    · rw [htake, ht, show l.take .endOfInput = l from l.skip_zero]
    · have hscanned : l'.scanned
          = if t.isSolid then (t, l.position) :: l.scanned else l.scanned := by
        rw [htake, take]
      rw [trail, trail, places_of_lex hlex ht, hscanned]
      split
      · rw [List.reverse_cons, List.append_assoc, List.singleton_append]
      · rfl

theorem skipBlanks_trail (l : Lexer) : l.skipBlanks.trail = l.trail := by
  induction htext : l.unread generalizing l with
  | nil =>
      rw [skipBlanks_eq_self]
      rw [htext]
      exact nofun
  | cons c text ih =>
      by_cases hc : isBlank c = true
      · have hlex : l.lex.2 = l.skip 1 := by
          rw [lex_blank htext hc, skip, htext]
          rfl
        rw [← skipBlanks_skip_one htext hc, ih _ (skip_one_unread htext), ← hlex, lex_trail]
      · rw [skipBlanks_eq_self]
        rw [htext]
        rintro _ ⟨⟩
        rwa [Bool.not_eq_true] at hc

-- The queue and the literal have no part in it.
theorem trail_with (l : Lexer) (queue : List Token) (literal : Option String) :
    trail { l with queue := queue, literal := literal } = l.trail :=
  congrArg (l.scanned.reverse ++ ·) (places_congr rfl rfl)

/-- Scanning a token behind any blanks moves an entry and keeps the trail. -/
theorem lexSolid_trail (l : Lexer) : l.lexSolid.2.trail = l.trail :=
  l.skipBlanks.lex_trail.trans l.skipBlanks_trail

end Lexer

end Reckoner
