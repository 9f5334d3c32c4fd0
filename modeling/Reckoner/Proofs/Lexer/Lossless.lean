import Reckoner.Proofs.Lexer.Lexeme
import Reckoner.Proofs.Lexer.Stream

/-!
# Scanning Loses Nothing

What one scan does to a lexer, and what is left of a text after all of them.

`lex` has four outcomes, one for each thing that can stand in front of the scanner: the
end, a blank, a lexeme, or none of these. They are stated as equations between whole
lexers, so that what a scan leaves alone is said too. A token is always taken with
the characters that spell it and nothing else. Hence the spellings of all tokens in
a row, blanks included, are the text again, up to the end or up to the character that
begins no token (`spelledOut`).

`Lexer.pieces` is the stream of these tokens. It differs from `Lexer.stream` in that
blanks are in it and that the queue has no part in it.

## Main definitions

* `Lexer.pieces`: What repeated scanning gives, blanks included.

## Theorems

* `lex_of_unread_nil`, `lex_blank`, `lex_solid`: The outcomes of a scan.
* `lex_ne_incompleteOperator`, `next_ne_incompleteOperator`,
  `lookahead_ne_incompleteOperator`: No operation finds an incomplete operator.
* `spelledOut`: The spellings of the tokens are the text.
* `lex_longest_and_lossless`: A scan takes the longest lexeme, and scanning loses
  nothing.
-/

namespace Reckoner

namespace Lexer

theorem lex_of_scan {l : Lexer} {t : Token} (h : Token.scan l.position l.unread = .ok t) :
    l.lex = (.ok t, l.take t) := by
  rw [lex, h]

theorem lex_of_scan_error {l : Lexer} {cause : LexError}
    (h : Token.scan l.position l.unread = .error cause) : l.lex = (.error cause, l) := by
  rw [lex, h]

/-- At the end of the input a scan gives the end and changes nothing. -/
theorem lex_of_unread_nil {l : Lexer} (h : l.unread = []) : l.lex = (.ok .endOfInput, l) := by
  have hscan : Token.scan l.position l.unread = .ok .endOfInput := by
    rw [h]
    rfl
  have htake : l.take .endOfInput = l := l.skip_zero
  rw [lex_of_scan hscan, htake]

/-- At a blank a scan takes that one character. -/
theorem lex_blank {l : Lexer} {c : Char} {rest : List Char} (h : l.unread = c :: rest)
    (hc : isBlank c = true) :
    l.lex = (.ok (.blank c), { l with unread := rest, position := l.position + 1 }) := by
  have hscan : Token.scan l.position l.unread = .ok (.blank c) := by
    rw [h, Token.scan, if_pos hc]
  have htake : l.take (.blank c) = { l with unread := rest, position := l.position + 1 } := by
    have hone : min (Token.blank c).width (c :: rest).length = 1 :=
      Nat.min_eq_left (Nat.succ_le_succ (Nat.zero_le _))
    rw [take, skip, h, hone]
    rfl
  rw [lex_of_scan hscan, htake]

theorem isSolid_of_isLexeme {t : Token} (h : t.IsLexeme) : t.isSolid = true := by
  cases t with
  | blank c => exact h.elim
  | endOfInput => exact h.elim
  | _ => rfl

-- A token that stands in front of the scanner is taken as a whole.
theorem take_of_front {l : Lexer} {t : Token} (h : t.IsLexeme) (hp : t.spelling <+: l.unread) :
    l.take t =
      { l with
        unread := l.unread.drop t.width
        position := l.position + t.width
        scanned := (t, l.position) :: l.scanned } := by
  have hle : t.width ≤ l.unread.length := hp.length_le
  simp only [take, skip, isSolid_of_isLexeme h, if_true, Nat.min_eq_left hle]

/-- At anything but a blank a scan takes the longest lexeme. If none stands there it
    changes nothing. -/
theorem lex_solid {l : Lexer} {c : Char} {rest : List Char} (h : l.unread = c :: rest)
    (hc : isBlank c = false) :
    (∃ t : Token, t.LongestAt l.unread ∧
        l.lex = (.ok t,
          { l with
            unread := l.unread.drop t.width
            position := l.position + t.width
            scanned := (t, l.position) :: l.scanned })) ∨
      (∀ t : Token, t.IsLexeme → ¬t.spelling <+: l.unread) ∧
        l.lex = (.error (.unrecognizedCharacter c l.position), l) := by
  rcases @scan_solid c rest l.position hc with ⟨t, hlongest, hscan⟩ | ⟨hnone, hscan⟩
  · rw [← h] at hlongest hscan
    refine Or.inl ⟨t, hlongest, ?_⟩
    rw [lex_of_scan hscan, take_of_front hlongest.lexeme hlongest.front]
  · rw [← h] at hnone hscan
    exact Or.inr ⟨hnone, lex_of_scan_error hscan⟩

theorem lex_ne_incompleteOperator (l : Lexer) (place : Nat) :
    l.lex.1 ≠ .error (.incompleteOperator place) := by
  unfold lex
  split
  · exact nofun
  · rename_i cause hscan
    intro h
    rw [Except.error.inj h] at hscan
    exact scan_ne_incompleteOperator _ _ place hscan

theorem next_ne_incompleteOperator (l : Lexer) (place : Nat) :
    l.next.1 ≠ .error (.incompleteOperator place) := by
  rcases l.next_cases with ⟨t, queue, -, hnext⟩ | ⟨t, l', -, -, -, hnext⟩ |
    ⟨cause, l', -, hlex, -, hnext⟩
  · rw [hnext]
    exact nofun
  · rw [hnext]
    exact nofun
  · rw [hnext]
    intro h
    rw [Except.error.inj h] at hlex
    exact l.skipBlanks.lex_ne_incompleteOperator place (congrArg Prod.fst hlex)

theorem enqueue_ne_incompleteOperator (n : Nat) (l : Lexer) (place : Nat) :
    (enqueue n l).1 ≠ .error (.incompleteOperator place) := by
  induction n generalizing l with
  | zero => exact nofun
  | succ n ih =>
      rcases hlex : l.lexSolid with ⟨cause | t, l'⟩
      · simp only [enqueue, hlex]
        intro h
        rw [Except.error.inj h] at hlex
        exact l.skipBlanks.lex_ne_incompleteOperator place (congrArg Prod.fst hlex)
      · simp only [enqueue, hlex]
        exact ih _

theorem lookahead_ne_incompleteOperator (n : Nat) (l : Lexer) (place : Nat) :
    (l.lookahead n).1 ≠ .error (.incompleteOperator place) := by
  have hqueued := enqueue_ne_incompleteOperator (max n 1 - l.queue.length) l place
  unfold lookahead
  dsimp only
  split
  · exact nofun
  · rename_i cause l' henqueue
    rw [henqueue] at hqueued
    intro h
    exact hqueued (congrArg Except.error (Except.error.inj h))

/-- What repeated scanning gives, blanks included. -/
def pieces (l : Lexer) : TokenStream :=
  match h : l.lex.1 with
  | .error cause => .failing cause
  | .ok t =>
    if ht : t = .endOfInput then .ending
    else
      have := lex_unread_lt h ht
      .token t (pieces l.lex.2)
termination_by l.unread.length

theorem pieces_of_error {l : Lexer} {cause : LexError} (h : l.lex.1 = .error cause) :
    l.pieces = .failing cause := by
  rw [pieces]
  split
  · rename_i cause' h'
    rw [h', Except.error.injEq] at h
    rw [h]
  · rename_i t h'
    rw [h'] at h
    cases h

theorem pieces_of_ok {l : Lexer} {t : Token} (h : l.lex.1 = .ok t) :
    l.pieces = if t = .endOfInput then .ending else .token t l.lex.2.pieces := by
  rw [pieces]
  split
  · rename_i cause h'
    rw [h'] at h
    cases h
  · rename_i t' h'
    rw [h', Except.ok.injEq] at h
    subst h
    rfl

/-- The tokens account for everything that is unread. Their spellings are the text up to
    its end, or up to a character that begins no token, and then the failure says which
    character that is and where it stands. -/
def SpelledOut (l : Lexer) : Prop :=
  ∃ w : List Token,
    l.pieces = w ++ TokenStream.ending ∧ l.unread = w.flatMap Token.spelling ∨
      ∃ c rest,
        l.pieces = w ++ TokenStream.failing
          (.unrecognizedCharacter c (l.position + (w.flatMap Token.spelling).length)) ∧
        l.unread = w.flatMap Token.spelling ++ c :: rest

-- One more token accounts for the characters that spell it.
theorem spelledOut_of_token {l l' : Lexer} {t : Token} (hlex : l.lex = (.ok t, l'))
    (ht : t ≠ .endOfInput) (hunread : l.unread = t.spelling ++ l'.unread)
    (hposition : l'.position = l.position + t.spelling.length) (h : l'.SpelledOut) :
    l.SpelledOut := by
  have hpieces := pieces_of_ok (congrArg Prod.fst hlex)
  rw [if_neg ht, hlex] at hpieces
  rcases h with ⟨w, ⟨hrest, hspelled⟩ | ⟨c, rest, hrest, hspelled⟩⟩
  · refine ⟨t :: w, Or.inl ⟨?_, ?_⟩⟩
    · rw [hpieces, hrest, TokenStream.cons_append]
    · rw [hunread, hspelled, List.flatMap_cons]
  · refine ⟨t :: w, Or.inr ⟨c, rest, ?_, ?_⟩⟩
    · rw [hpieces, hrest, TokenStream.cons_append, hposition, List.flatMap_cons,
        List.length_append, Nat.add_assoc]
    · rw [hunread, hspelled, List.flatMap_cons, List.append_assoc]

/-- Scanning loses nothing. -/
theorem spelledOut (l : Lexer) : l.SpelledOut := by
  -- The induction is on how much is unread, which every token but the end lowers.
  induction hn : l.unread.length using Nat.strongRecOn generalizing l with
  | ind n ih =>
      have hstep : ∀ (t : Token) (l' : Lexer), l.lex = (.ok t, l') → t ≠ .endOfInput →
          l'.SpelledOut := by
        intro t l' hlex ht
        have hless := lex_unread_lt (congrArg Prod.fst hlex) ht
        rw [hlex, hn] at hless
        exact ih l'.unread.length hless l' rfl
      rcases hunread : l.unread with _ | ⟨c, rest⟩
      · refine ⟨[], Or.inl ⟨?_, hunread⟩⟩
        rw [pieces_of_ok (congrArg Prod.fst (lex_of_unread_nil hunread)), if_pos rfl]
        rfl
      · by_cases hc : isBlank c = true
        · have hlex := lex_blank hunread hc
          exact spelledOut_of_token hlex nofun hunread rfl (hstep _ _ hlex nofun)
        · rw [Bool.not_eq_true] at hc
          rcases lex_solid hunread hc with ⟨t, hlongest, hlex⟩ | ⟨-, hlex⟩
          · have ht : t ≠ .endOfInput := by
              rintro rfl
              exact hlongest.lexeme
            rcases hlongest.front with ⟨behind, hbehind⟩
            refine spelledOut_of_token hlex ht ?_ rfl (hstep _ _ hlex ht)
            change l.unread = t.spelling ++ l.unread.drop t.spelling.length
            rw [← hbehind, List.drop_left]
          · exact ⟨[], Or.inr ⟨c, rest, pieces_of_error (congrArg Prod.fst hlex), hunread⟩⟩

/-- A scan takes the longest lexeme, and scanning loses nothing. For any lexer,

    * at the end of the input a scan gives the end and changes nothing,
    * at a blank it gives the blank and moves by one character,
    * anywhere else it gives the longest lexeme, with the characters that spell it as the
      text of a number, and moves over these, or there is no lexeme, and it
      complains about the character that it stands at and changes nothing,
    * no operation finds an incomplete operator,
    * the spellings of all tokens, blanks included, are the text up to its end or up to
      the character complained about. -/
theorem lex_longest_and_lossless (l : Lexer) :
    (l.unread = [] → l.lex = (.ok .endOfInput, l)) ∧
      (∀ c rest, l.unread = c :: rest → isBlank c = true →
        l.lex = (.ok (.blank c), { l with unread := rest, position := l.position + 1 })) ∧
      (∀ c rest, l.unread = c :: rest → isBlank c = false →
        (∃ t : Token, t.LongestAt l.unread ∧
            l.lex = (.ok t,
              { l with
                unread := l.unread.drop t.width
                position := l.position + t.width
                scanned := (t, l.position) :: l.scanned })) ∨
          (∀ t : Token, t.IsLexeme → ¬t.spelling <+: l.unread) ∧
            l.lex = (.error (.unrecognizedCharacter c l.position), l)) ∧
      (∀ n place, l.lex.1 ≠ .error (.incompleteOperator place) ∧
        l.next.1 ≠ .error (.incompleteOperator place) ∧
        (l.lookahead n).1 ≠ .error (.incompleteOperator place)) ∧
      ∃ w : List Token,
        l.pieces = w ++ TokenStream.ending ∧ l.unread = w.flatMap Token.spelling ∨
          ∃ c rest,
            l.pieces = w ++ TokenStream.failing
              (.unrecognizedCharacter c (l.position + (w.flatMap Token.spelling).length)) ∧
            l.unread = w.flatMap Token.spelling ++ c :: rest :=
  ⟨lex_of_unread_nil, fun _ _ => lex_blank, fun _ _ => lex_solid,
    fun n place => ⟨l.lex_ne_incompleteOperator place, l.next_ne_incompleteOperator place,
      l.lookahead_ne_incompleteOperator n place⟩,
    l.spelledOut⟩

/-- Three stars are a power and a multiplication. -/
theorem power_before_multiply :
    (ofText "***").unread = '*' :: ['*', '*'] ∧ isBlank '*' = false ∧
      (Token.operator .power).LongestAt (ofText "***").unread ∧
      (ofText "***").lex = (.ok (.operator .power),
        { unread := ['*'], position := 2, queue := [], literal := none,
          scanned := [(.operator .power, 0)] }) := by
  have hunread : (ofText "***").unread = '*' :: ['*', '*'] := rfl
  have hblank : isBlank '*' = false := by decide
  have hlex : (ofText "***").lex.1 = .ok (.operator .power) := rfl
  refine ⟨hunread, hblank, ?_⟩
  rcases (lex_longest_and_lossless (ofText "***")).2.2.1 _ _ hunread hblank with
    ⟨t, hlongest, hfound⟩ | ⟨-, hfound⟩
  · rw [hfound, Except.ok.injEq] at hlex
    subst hlex
    exact ⟨hlongest, hfound⟩
  · rw [hfound] at hlex
    cases hlex

end Lexer

end Reckoner
