import Reckoner.Proofs.Lexer.Joining

/-!
# Texts Cut by a Lexer

What is known of a text from what a lexer hands out.

`stream_of_tokenizes` says what a lexer makes of a text of which it is known how it is cut
into tokens. This is the other direction. Whatever tokens a lexer hands out first, its text
begins with them and is cut there (`exists_behind`). If it hands out the end after them
only blanks are left (`tokenizes_of_stream`), and if it hands out nothing more there is
a character that begins no token (`failing_of_stream_ofText`).

With both directions lexers can be left out of an argument about texts: what a lexer has
handed out is turned into a cut, the text is changed, and the cut of the new text is
turned into what another lexer hands out.

## Theorems

* `lex_ok_cases`: What stands in front of a scanner that finds a token.
* `tokenizes_of_lexSolid`, `exists_behind`, `tokenizes_of_stream`: A text is cut into the tokens
  that are handed out.
* `exists_unrecognized`: What stands in front of a lexer that hands out nothing.
* `stream_ofText_failing`, `failing_of_stream_ofText`: What is handed out of a text up to a
  character that begins no token.
-/

namespace Reckoner

namespace Lexer

/-- What stands in front of the scanner if a scan gives a token: nothing, a blank, or the characters
    that spell the token. -/
theorem lex_ok_cases {l l' : Lexer} {t : Token} (h : l.lex = (.ok t, l')) :
    (t = .endOfInput ∧ l.unread = [] ∧ l' = l) ∨
      (∃ c, t = .blank c ∧ isBlank c = true ∧ l.unread = c :: l'.unread) ∨
      t.FoundBefore l'.unread ∧ l.unread = t.spelling ++ l'.unread := by
  rcases hunread : l.unread with _ | ⟨c, rest⟩
  · rw [lex_of_unread_nil hunread, Prod.mk.injEq, Except.ok.injEq] at h
    exact Or.inl ⟨h.1.symm, rfl, h.2.symm⟩
  · by_cases hc : isBlank c = true
    · rw [lex_blank hunread hc, Prod.mk.injEq, Except.ok.injEq] at h
      rcases h with ⟨rfl, rfl⟩
      exact Or.inr (Or.inl ⟨c, rfl, hc, rfl⟩)
    · rw [Bool.not_eq_true] at hc
      rcases lex_solid hunread hc with ⟨t', hlongest, hlex⟩ | ⟨-, hlex⟩
      · rw [hlex, Prod.mk.injEq, Except.ok.injEq] at h
        rcases h with ⟨rfl, rfl⟩
        rw [hunread] at hlongest
        rcases hlongest.front with ⟨text, htext⟩
        dsimp only
        rw [hunread, ← htext, Token.width, List.drop_left]
        rw [← htext] at hlongest
        exact Or.inr (Or.inr ⟨.of_longestAt hlongest, rfl⟩)
      · rw [hlex] at h
        cases h

-- The blanks that are skipped are no tokens.
theorem tokenizes_skipBlanks (l : Lexer) : Tokenizes l.unread [] l.skipBlanks.unread := by
  have hblanks : ∀ c ∈ l.unread.takeWhile isBlank, isBlank c = true := fun c hc =>
    List.all_eq_true.mp List.all_takeWhile c hc
  have htokens := Tokenizes.blanks hblanks (.done l.skipBlanks.unread)
  rwa [l.skipBlanks_unread, List.takeWhile_append_dropWhile, ← l.skipBlanks_unread] at htokens

-- Behind the blanks that are skipped there is no further one.
theorem isBlank_head_skipBlanks {l : Lexer} {c : Char} {rest : List Char}
    (h : l.skipBlanks.unread = c :: rest) : isBlank c = false := by
  have hhead := List.head?_dropWhile_not isBlank l.unread
  rw [← l.skipBlanks_unread, h] at hhead
  exact hhead

/-- A token that is scanned behind any blanks stands at the front of the text, or the
    blanks are all of it. -/
theorem tokenizes_of_lexSolid {l l' : Lexer} {t : Token} (h : l.lexSolid = (.ok t, l')) :
    (t = .endOfInput ∧ Tokenizes l.unread [] []) ∨
      t.isSolid = true ∧ Tokenizes l.unread [t] l'.unread := by
  have hblanks := l.tokenizes_skipBlanks
  rcases lex_ok_cases h with ⟨hend, hnil, -⟩ | ⟨c, -, hc, hunread⟩ | ⟨hfound, hunread⟩
  · rw [hnil] at hblanks
    exact Or.inl ⟨hend, hblanks⟩
  · exact absurd (hc.symm.trans (isBlank_head_skipBlanks hunread)) Bool.noConfusion
  · rw [hunread] at hblanks
    exact Or.inr ⟨hfound.solid, hblanks.append (.token hfound.solid hfound.scan (.done _))⟩

/-- Behind the first tokens that a lexer hands out it stands at a rest of its text, before which the
    text is cut into these tokens. -/
theorem exists_behind {l : Lexer} {w : List Token} {s : TokenStream} (hqueue : l.queue = [])
    (h : l.stream = w ++ s) :
    ∃ l' : Lexer, l'.queue = [] ∧ l'.stream = s ∧ Tokenizes l.unread w l'.unread ∧
      l'.extent = l.extent := by
  induction w generalizing l with
  | nil => exact ⟨l, hqueue, h, .done l.unread, rfl⟩
  | cons t w ih =>
      rcases next_of_stream_token h with ⟨hnext, hne, hrest⟩
      have hextent := l.lexSolid_extent
      rcases l.next_cases with ⟨t', queue, hq, -⟩ | ⟨t', l', -, hlex, hempty, hcase⟩ |
        ⟨cause, l', -, -, -, hcase⟩
      · rw [hqueue] at hq
        cases hq
      · rw [hcase] at hnext hrest
        rw [hlex] at hextent
        rcases tokenizes_of_lexSolid hlex with ⟨hend, -⟩ | ⟨-, hfront⟩
        · exact absurd ((Except.ok.inj hnext).symm.trans hend) hne
        · rw [Except.ok.inj hnext] at hfront hrest
          rcases @ih (l'.consumed t) hempty hrest with
            ⟨l'', hqueue', hstream, hbehind, hextent'⟩
          exact ⟨l'', hqueue', hstream, hfront.append hbehind, hextent'.trans hextent⟩
      · rw [hcase] at hnext
        cases hnext

-- A lexer that hands out the end next has only blanks before it.
theorem tokenizes_of_stream_ending {l : Lexer} (hqueue : l.queue = [])
    (h : l.stream = .ending) : Tokenizes l.unread [] [] := by
  have hnext : l.next.1 = .ok .endOfInput := by
    rw [← l.head_stream, h]
    rfl
  rcases l.next_cases with ⟨t, queue, hq, -⟩ | ⟨t, l', -, hlex, -, hcase⟩ |
    ⟨cause, l', -, -, -, hcase⟩
  · rw [hqueue] at hq
    cases hq
  · rw [hcase, Except.ok.injEq] at hnext
    rcases tokenizes_of_lexSolid hlex with ⟨-, hblanks⟩ | ⟨hsolid, -⟩
    · exact hblanks
    · rw [hnext] at hsolid
      exact absurd hsolid Bool.false_ne_true
  · rw [hcase] at hnext
    cases hnext

/-- A text is cut into the tokens that a lexer hands out before the end. -/
theorem tokenizes_of_stream {l : Lexer} {w : List Token} (hqueue : l.queue = [])
    (h : l.stream = w ++ TokenStream.ending) : Tokenizes l.unread w [] := by
  rcases exists_behind hqueue h with ⟨l', hqueue', hending, hfront, -⟩
  have htokens := hfront.append (tokenizes_of_stream_ending hqueue' hending)
  rwa [List.append_nil] at htokens

-- A lexer that can hand out nothing has blanks before it and then a character that begins no
-- lexeme.
theorem exists_unrecognized {l : Lexer} {cause : LexError} (h : l.stream = .failing cause) :
    ∃ (c : Char) (behind : List Char) (position : Nat),
      Tokenizes l.unread [] (c :: behind) ∧ isBlank c = false ∧
        (∀ t : Token, t.IsLexeme → ¬t.spelling <+: c :: behind) ∧
          cause = .unrecognizedCharacter c position ∧
            position + (c :: behind).length = l.extent := by
  have hnext : l.next.1 = .error cause := by
    rw [← l.head_stream, h]
    rfl
  rcases l.next_cases with ⟨t, queue, -, hcase⟩ | ⟨t, l', -, -, -, hcase⟩ |
    ⟨cause', l', -, hlex, -, hcase⟩
  · rw [hcase] at hnext
    cases hnext
  · rw [hcase] at hnext
    cases hnext
  · rw [hcase, Except.error.injEq] at hnext
    subst hnext
    have hblanks := l.tokenizes_skipBlanks
    have hextent : l.skipBlanks.extent = l.extent := l.skip_extent _
    rcases hunread : l.skipBlanks.unread with _ | ⟨c, behind⟩
    · rw [lexSolid, lex_of_unread_nil hunread] at hlex
      cases hlex
    · have hblank := isBlank_head_skipBlanks hunread
      rcases lex_solid hunread hblank with ⟨t, -, hfound⟩ | ⟨hnone, hfailed⟩
      · rw [lexSolid, hfound] at hlex
        cases hlex
      · rw [lexSolid, hfailed, Prod.mk.injEq, Except.error.injEq] at hlex
        rw [hunread] at hnone hblanks
        rw [extent, hunread] at hextent
        exact ⟨c, behind, _, hblanks, hblank, hnone, hlex.1.symm, hextent⟩

end Lexer

/-- A text that is cut into tokens up to a character that begins none is handed out as
    these tokens, and then comes the complaint about that character. -/
theorem stream_ofText_failing {text : String} {before behind : List Char} {c : Char}
    {w : List Token} (htext : text.toList = before ++ c :: behind)
    (h : Tokenizes text.toList w (c :: behind)) (hblank : isBlank c = false)
    (hnone : ∀ t : Token, t.IsLexeme → ¬t.spelling <+: c :: behind) :
    (Lexer.ofText text).stream
      = w ++ TokenStream.failing (.unrecognizedCharacter c before.length) := by
  rcases stream_of_tokenizes h (Lexer.ofText text) rfl rfl with
    ⟨l', hqueue, hunread, hposition, hstream⟩
  have hplace : l'.position = before.length := by
    have hstart : (Lexer.ofText text).position = 0 := rfl
    rw [hstart, htext, List.length_append] at hposition
    omega
  have hblanks : l'.skipBlanks = l' := by
    refine Lexer.skipBlanks_eq_self fun c' hc' => ?_
    rw [hunread] at hc'
    rw [← Option.some.inj hc']
    exact hblank
  have hlex : l'.lexSolid = (.error (.unrecognizedCharacter c before.length), l') := by
    rw [Lexer.lexSolid, hblanks]
    rcases Lexer.lex_solid hunread hblank with ⟨t, hlongest, -⟩ | ⟨-, hlex⟩
    · rw [hunread] at hlongest
      exact absurd hlongest.front (hnone t hlongest.lexeme)
    · rw [hlex, hplace]
  have hnext := Lexer.next_of_lexSolid_error hqueue hlex
  rw [hstream, Lexer.stream_of_error (congrArg Prod.fst hnext)]

/-- Where a text is handed out up to a complaint, there is a character that begins no token, and the
    text in front of it is cut into the tokens. -/
theorem failing_of_stream_ofText {text : String} {w : List Token} {cause : LexError}
    (h : (Lexer.ofText text).stream = w ++ TokenStream.failing cause) :
    ∃ (before behind : List Char) (c : Char), text.toList = before ++ c :: behind ∧
      Tokenizes text.toList w (c :: behind) ∧ isBlank c = false ∧
        (∀ t : Token, t.IsLexeme → ¬t.spelling <+: c :: behind) ∧
          cause = .unrecognizedCharacter c before.length := by
  rcases @Lexer.exists_behind (Lexer.ofText text) w _ rfl h with
    ⟨l, -, hfailing, hfront, hextent⟩
  rcases Lexer.exists_unrecognized hfailing with
    ⟨c, behind, position, hblanks, hblank, hnone, rfl, hposition⟩
  have htokens := hfront.append hblanks
  rw [List.append_nil] at htokens
  rcases htokens.exists_front with ⟨before, htext, -⟩
  refine ⟨before, behind, c, htext, htokens, hblank, hnone, ?_⟩
  have hlength := congrArg List.length htext
  have hstart : (Lexer.ofText text).extent = (Lexer.ofText text).unread.length := Nat.zero_add _
  rw [List.length_append] at hlength
  rw [show position = before.length by omega]

end Reckoner
