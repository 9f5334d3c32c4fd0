import Reckoner.Proofs.Lexer.Cutting

/-!
# Boundaries Between Tokens

The places of a text that the scanner comes to, and what it finds behind them.

Scanning moves the scanner and leaves the text where it is. The place that is reached
after some scans is therefore an index into the text: the characters before it are those
of the tokens scanned, and those from it on are unread (`exists_front_of_scans`).

What is found behind a boundary depends on the characters there and on nothing else.
Where they stand in their text has a part in the complaint about a character that
begins no token and in nothing besides. Two texts that are cut into the same tokens up to
the same rest are handed out alike, with the place of a complaint moved by as much as one
of them is longer (`stream_of_tokenizes_raised`).

## Main definitions

* `Lexer.Scans`: One scan after another.
* `LexError.raise`, `TokenStream.raise`: The same complaint about a place further behind.
* `Lexer.Raised`: Lexers that stand before the same characters at different places.

## Theorems

* `Scans.tokenizes`: The tokens that are scanned cut the text.
* `Scans.blanks`: What stands before the scanner if it goes over blanks.
* `exists_front_of_scans`: A place that the scanner comes to is an index into the text.
* `scan_raise`: What is found does not depend on the place.
* `Raised.stream`: What is handed out does not depend on the place.
* `stream_of_tokenizes_raised`: Texts with the same tokens before the same rest.
-/

namespace Reckoner

namespace Lexer

/-- One scan after another gives these tokens, blanks included, and leaves this lexer. -/
inductive Scans : Lexer → List Token → Lexer → Prop
  | done (l : Lexer) : Scans l [] l
  | scan {l l' l'' : Lexer} {t : Token} {w : List Token} (hlex : l.lex = (.ok t, l'))
      (hrest : Scans l' w l'') : Scans l (t :: w) l''

namespace Scans

variable {l l' : Lexer} {w : List Token}

theorem extent_eq (h : Scans l w l') : l'.extent = l.extent := by
  induction h with
  | done => rfl
  | @scan l _ _ _ _ hlex _ ih =>
      have hscan := l.lex_extent
      rw [hlex] at hscan
      exact ih.trans hscan

/-- The tokens that are scanned cut the text, the blanks among them aside. -/
theorem tokenizes (h : Scans l w l') :
    Tokenizes l.unread (w.filter Token.isSolid) l'.unread := by
  induction h with
  | done l => exact .done l.unread
  | @scan _ _ _ t w hlex _ ih =>
      rcases lex_ok_cases hlex with ⟨rfl, -, rfl⟩ | ⟨c, rfl, hc, hunread⟩ | ⟨hfound, hunread⟩
      · exact ih
      · rw [hunread]
        exact .blank hc ih
      · rw [hunread, List.filter_cons, if_pos hfound.solid]
        exact .token hfound.solid hfound.scan ih

-- Several scans are some of them and then the others.
theorem of_append {v : List Token} (h : Scans l (v ++ w) l') :
    ∃ middle, Scans l v middle ∧ Scans middle w l' := by
  induction v generalizing l with
  | nil => exact ⟨l, .done l, h⟩
  | cons t v ih =>
      cases h with
      | scan hlex hrest =>
          rcases ih hrest with ⟨middle, hfront, hbehind⟩
          exact ⟨middle, .scan hlex hfront, hbehind⟩

theorem of_singleton {t : Token} (h : Scans l [t] l') : l.lex = (.ok t, l') := by
  cases h with
  | scan hlex hrest =>
      cases hrest
      exact hlex

/-- Where the scanner goes over blanks and nothing else these are what stands before it. -/
theorem blanks {blanks : List Char} (h : Scans l (blanks.map .blank) l') :
    (∀ c ∈ blanks, isBlank c = true) ∧ l.unread = blanks ++ l'.unread := by
  induction blanks generalizing l with
  | nil =>
      cases h
      exact ⟨nofun, rfl⟩
  | cons c blanks ih =>
      cases h with
      | scan hlex hrest =>
          rcases ih hrest with ⟨hblanks, hbehind⟩
          rcases lex_ok_cases hlex with ⟨hend, -⟩ | ⟨c', hc', hblank, hunread⟩ | ⟨hfound, -⟩
          · cases hend
          · cases hc'
            rw [hunread, hbehind]
            exact ⟨List.forall_mem_cons.mpr ⟨hblank, hblanks⟩, rfl⟩
          · exact absurd hfound.solid Bool.false_ne_true

end Scans

/-- A place that the scanner comes to in a text is an index into it, and from there on the
    text is unread. -/
theorem exists_front_of_scans {source : String} {w : List Token} {l : Lexer}
    (h : Scans (ofText source) w l) :
    ∃ front : List Char, source.toList = front ++ l.unread ∧ front.length = l.position := by
  rcases h.tokenizes.exists_front with ⟨front, hfront, -⟩
  refine ⟨front, hfront, ?_⟩
  have hextent := h.extent_eq
  have hlength := congrArg List.length hfront
  simp only [extent, ofText] at hextent hlength
  rw [List.length_append] at hlength
  omega

end Lexer

/-- The same complaint about a place further behind. -/
def LexError.raise (n : Nat) : LexError → LexError
  | unrecognizedCharacter c position => unrecognizedCharacter c (position + n)
  | incompleteOperator position => incompleteOperator (position + n)

/-- The same tokens, and if they end with a complaint, then about a place further behind. -/
def TokenStream.raise (n : Nat) : TokenStream → TokenStream
  | ending => ending
  | failing cause => failing (cause.raise n)
  | token t rest => token t (rest.raise n)

theorem TokenStream.raise_append (n : Nat) (w : List Token) (s : TokenStream) :
    (w ++ s).raise n = w ++ s.raise n := by
  induction w with
  | nil => rfl
  | cons t w ih => rw [cons_append, raise, ih, cons_append]

theorem TokenStream.head_raise (n : Nat) (s : TokenStream) :
    (s.raise n).head = s.head.mapError (·.raise n) := by
  cases s with
  | _ => rfl

/-- The place has a part in the complaint about a character and in nothing besides. -/
theorem scan_raise (position n : Nat) (text : List Char) :
    Token.scan (position + n) text = (Token.scan position text).mapError (·.raise n) := by
  cases text with
  | nil => rfl
  | cons c rest =>
      simp only [Token.scan]
      repeat' split
      all_goals rfl

namespace Lexer

/-- The second lexer stands before the same characters as the first one, at a place further
    behind. -/
structure Raised (n : Nat) (l l' : Lexer) : Prop where
  unread_eq : l'.unread = l.unread
  queue_eq : l'.queue = l.queue
  position_eq : l'.position = l.position + n

namespace Raised

variable {n : Nat} {l l' : Lexer}

theorem skip (h : Raised n l l') (k : Nat) : Raised n (l.skip k) (l'.skip k) := by
  refine ⟨?_, h.queue_eq, ?_⟩
  · simp only [Lexer.skip, h.unread_eq]
  · simp only [Lexer.skip, h.unread_eq, h.position_eq]
    omega

theorem take (h : Raised n l l') (t : Token) : Raised n (l.take t) (l'.take t) := by
  rcases h.skip t.width with ⟨hunread, hqueue, hposition⟩
  exact ⟨hunread, hqueue, hposition⟩

theorem lex (h : Raised n l l') :
    l'.lex.1 = l.lex.1.mapError (·.raise n) ∧ Raised n l.lex.2 l'.lex.2 := by
  unfold Lexer.lex
  rw [h.unread_eq, h.position_eq, scan_raise]
  rcases Token.scan l.position l.unread with cause | t
  · exact ⟨rfl, h⟩
  · exact ⟨rfl, h.take t⟩

theorem lexSolid (h : Raised n l l') :
    l'.lexSolid.1 = l.lexSolid.1.mapError (·.raise n) ∧ Raised n l.lexSolid.2 l'.lexSolid.2 := by
  have hblanks : Raised n l.skipBlanks l'.skipBlanks := by
    rw [skipBlanks, skipBlanks, h.unread_eq]
    exact h.skip _
  exact hblanks.lex

theorem next (h : Raised n l l') :
    l'.next.1 = l.next.1.mapError (·.raise n) ∧ Raised n l.next.2 l'.next.2 := by
  rcases hq : l.queue with _ | ⟨t, queue⟩
  · have hq' := h.queue_eq.trans hq
    rcases h.lexSolid with ⟨hanswer, hrest⟩
    rcases hlex : l.lexSolid with ⟨answer, rest⟩
    rcases hlex' : l'.lexSolid with ⟨answer', rest'⟩
    rw [hlex, hlex'] at hanswer hrest
    dsimp only at hanswer
    subst hanswer
    cases answer with
    | error cause =>
        rw [next_of_lexSolid_error hq hlex, next_of_lexSolid_error hq' hlex']
        exact ⟨rfl, hrest⟩
    | ok t =>
        rw [next_of_lexSolid_ok hq hlex, next_of_lexSolid_ok hq' hlex']
        exact ⟨rfl, hrest.unread_eq, hrest.queue_eq, hrest.position_eq⟩
  · rw [next_of_queue hq, next_of_queue (h.queue_eq.trans hq)]
    exact ⟨rfl, h.unread_eq, rfl, h.position_eq⟩

/-- What is handed out does not depend on the place, the complaint at its end apart. -/
theorem stream (h : Raised n l l') : l'.stream = l.stream.raise n := by
  induction l using next_induction generalizing l' with
  | failed l cause hnext =>
      have hanswer := h.next.1
      rw [hnext] at hanswer
      rw [stream_of_error hnext, stream_of_error hanswer, TokenStream.raise]
  | ended l hnext =>
      have hanswer := h.next.1
      rw [hnext] at hanswer
      rw [stream_of_end hnext, stream_of_end hanswer, TokenStream.raise]
  | token l t hnext ht ih =>
      rcases h.next with ⟨hanswer, hrest⟩
      rw [hnext] at hanswer
      rw [stream_of_token hnext ht, stream_of_token hanswer ht, ih hrest, TokenStream.raise]

end Raised

end Lexer

/-- Two texts that are cut into the same tokens before the same rest are handed out alike, up to
    the place of a complaint, which is moved by as much as one text is longer. -/
theorem stream_of_tokenizes_raised {source raised : String} {w : List Token} {rest : List Char}
    {n : Nat} (h : Tokenizes source.toList w rest) (h' : Tokenizes raised.toList w rest)
    (hlength : raised.toList.length = source.toList.length + n) :
    (Lexer.ofText raised).stream = (Lexer.ofText source).stream.raise n := by
  rcases stream_of_tokenizes h (Lexer.ofText source) rfl rfl with
    ⟨l, hqueue, hunread, hposition, hstream⟩
  rcases stream_of_tokenizes h' (Lexer.ofText raised) rfl rfl with
    ⟨l', hqueue', hunread', hposition', hstream'⟩
  have hstart : ∀ text : String, (Lexer.ofText text).position = 0 := fun _ => rfl
  rw [hstart] at hposition hposition'
  have hraised : Lexer.Raised n l l' :=
    ⟨hunread'.trans hunread.symm, hqueue'.trans hqueue.symm, by omega⟩
  rw [hstream, hstream', TokenStream.raise_append, hraised.stream]

end Reckoner
