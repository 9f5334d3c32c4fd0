import Reckoner.Proofs.Lexer.Places
import Reckoner.Proofs.Parser.Verdict

/-!
# The Footprint of the Parser

Which tokens of a text are scanned to read it.

The parser looks one token ahead. What it has scanned are therefore the tokens that it has
consumed and at most one more, and while it goes on this is kept up by both of its
operations (`Follows`): looking scans a token only if none is queued, and consuming takes
the queued one. Nothing is scanned twice, since what has been scanned and what is still to
be scanned make up the places of the text at any time.

How many tokens have been scanned in the end depends on how the parser ends. Nearly always
the last thing it has done is to look, and then the next token has been scanned if there
is one (`SeesNext`). Only a token in the place of a closing parenthesis has been consumed
without a look at what is behind it. Together with what was consumed this is exactly the
tokens up to the one that decides (`scanned_decidedBy`).

## Main definitions

* `Lexer.Follows`: A lexer that looks one token ahead in a text.
* `Lexer.SeesNext`: The next token has been scanned and none behind it.
* `EndsLooking`: What has been scanned where a rule ends.

## Theorems

* `Follows.peek`, `Follows.next`, `Follows.read`: The parser follows its text.
* `Follows.peek_seesNext`: Looking scans the next token.
* `read_endsLooking`: What has been scanned where a rule ends.
* `scanned_decidedBy`: Reading a text scans the tokens up to the one that decides.
-/

namespace Reckoner

namespace Lexer

/-- A lexer that has begun at the start of a text and has looked no further ahead than at the next
    token: at most one token is queued, what has been scanned and what has not are the
    places of the text, and the tokens that have been scanned are those handed out and the one
    that is queued. -/
structure Follows (source : String) (l : Lexer) : Prop where
  endIsLast : l.EndIsLast
  short : l.queue.length ≤ 1
  queued : ∀ t ∈ l.queue, t.isSolid = true ∨ t = .endOfInput
  trail_eq : l.trail = (ofText source).places
  accounted : ∃ w : List Token, (ofText source).stream = w ++ l.stream ∧
    l.scanned.reverse.map Prod.fst = w ++ l.queue.filter Token.isSolid

/-- The next token has been scanned, if there is one, and none behind it. -/
def SeesNext (l : Lexer) : Prop :=
  l.queue.filter Token.isSolid = l.stream.tokens.take 1

-- A scan takes down the token that it finds, unless it is the end.
theorem scanned_of_lexSolid {l l' : Lexer} {t : Token} (h : l.lexSolid = (.ok t, l')) :
    l'.scanned.reverse.map Prod.fst
      = l.scanned.reverse.map Prod.fst ++ [t].filter Token.isSolid := by
  have hscanned : l'.scanned
      = if t.isSolid then (t, l.skipBlanks.position) :: l.scanned else l.scanned := by
    rw [lex_eq_ok h]
    rfl
  rw [hscanned]
  cases ht : t.isSolid with
  | true =>
      rw [if_pos rfl, List.filter_cons_of_pos ht, List.reverse_cons, List.map_append]
      rfl
  | false =>
      rw [if_neg Bool.false_ne_true, List.filter_cons_of_neg (by rw [ht]; exact Bool.false_ne_true)]
      exact (List.append_nil _).symm

theorem scanned_of_lexSolid_error {l l' : Lexer} {cause : LexError}
    (h : l.lexSolid = (.error cause, l')) : l'.scanned = l.scanned := by
  rw [lex_eq_error h]
  rfl

-- A token that is handed out is the first of the stream, unless it is the end.
theorem stream_eq_handed {l : Lexer} {t : Token} (hlast : l.EndIsLast) (hnext : l.next.1 = .ok t)
    (ht : t.isSolid = true ∨ t = .endOfInput) :
    l.stream = [t].filter Token.isSolid ++ l.next.2.stream := by
  rcases ht with ht | rfl
  · have hend : t.isEnd = false := by
      cases t with
      | endOfInput => exact absurd ht Bool.false_ne_true
      | _ => rfl
    rw [List.filter_cons_of_pos ht, stream_of_token hnext hend]
    rfl
  · rw [stream_next hlast, stream_of_end hnext]
    rfl

theorem isSolid_or_end_of_lexSolid {l l' : Lexer} {t : Token} (h : l.lexSolid = (.ok t, l')) :
    t.isSolid = true ∨ t = .endOfInput := by
  rcases tokenizes_of_lexSolid h with ⟨hend, -⟩ | ⟨hsolid, -⟩
  · exact Or.inr hend
  · exact Or.inl hsolid

-- Where no token can be scanned none has been.
theorem next_seesNext_of_error {l : Lexer} {cause : LexError} (h : l.next.1 = .error cause) :
    l.next.2.SeesNext := by
  have hstream := stream_of_error ((congrArg Prod.fst (next_again h)).trans h)
  rcases l.next_cases with ⟨t, queue, -, hnext⟩ | ⟨t, l', -, -, -, hnext⟩ |
    ⟨cause', l', -, -, hqueue, hnext⟩
  · rw [hnext] at h
    cases h
  · rw [hnext] at h
    cases h
  · rw [SeesNext, hstream, hnext, hqueue]
    rfl

theorem follows_ofText (source : String) : Follows source (ofText source) where
  endIsLast := (Reachable.start source).endIsLast
  short := Nat.zero_le _
  queued := nofun
  trail_eq := rfl
  accounted := ⟨[], rfl, rfl⟩

namespace Follows

variable {source : String} {l : Lexer}

-- A failed scan only goes over the blanks.
theorem scan_error {l' : Lexer} {cause : LexError} (h : l.Follows source) (hq : l.queue = [])
    (hlex : l.lexSolid = (.error cause, l')) : l'.Follows source := by
  have hqueue := (queue_of_lexSolid hlex).trans hq
  have hlast := lexSolid_endIsLast h.endIsLast
  have htrail := l.lexSolid_trail.trans h.trail_eq
  have hstream := l.stream_peek
  rw [peek_of_queue_nil hq] at hstream
  rw [hlex] at hlast htrail hstream
  rcases h.accounted with ⟨w, hwhole, hscanned⟩
  refine ⟨hlast, by rw [hqueue]; exact Nat.zero_le _, by rw [hqueue]; exact nofun, htrail,
    w, by rw [hstream, hwhole], ?_⟩
  rw [scanned_of_lexSolid_error hlex, hscanned, hqueue, hq]

-- A token that is scanned is queued.
theorem scan_ok {l' : Lexer} {t : Token} (h : l.Follows source) (hq : l.queue = [])
    (hlex : l.lexSolid = (.ok t, l')) : Follows source { l' with queue := [t] } := by
  have hqueue := (queue_of_lexSolid hlex).trans hq
  have hlast := endIsLast_of_lexSolid h.endIsLast hlex
  have htrail := l.lexSolid_trail.trans h.trail_eq
  have hstream := l.stream_peek
  rw [hqueue, List.nil_append] at hlast
  rw [peek_of_queue_nil hq] at hstream
  rw [hlex] at htrail hstream
  rcases h.accounted with ⟨w, hwhole, hscanned⟩
  refine ⟨hlast, Nat.le_refl 1, ?_, (l'.trail_with [t] l'.literal).trans htrail,
    w, by rw [hstream, hwhole], ?_⟩
  · exact List.forall_mem_singleton.mpr (isSolid_or_end_of_lexSolid hlex)
  · change l'.scanned.reverse.map Prod.fst = _
    rw [scanned_of_lexSolid hlex, hscanned, hq, List.filter_nil, List.append_nil]

-- A token that is queued is handed out.
theorem pop {t : Token} {queue : List Token} (h : l.Follows source) (hq : l.queue = t :: queue) :
    (consumed t { l with queue := queue }).Follows source := by
  have hlast := next_endIsLast h.endIsLast
  have hshort := h.short
  have hqueued := h.queued
  rcases h.accounted with ⟨w, hwhole, hscanned⟩
  rw [hq, List.length_cons] at hshort
  rw [hq] at hscanned hqueued
  rcases List.forall_mem_cons.mp hqueued with ⟨ht, hqueued'⟩
  have hhanded := stream_eq_handed h.endIsLast (congrArg Prod.fst (next_of_queue hq)) ht
  rw [next_of_queue hq] at hlast hhanded
  refine ⟨hlast, Nat.le_of_succ_le hshort, hqueued', (l.trail_with queue _).trans h.trail_eq,
    w ++ [t].filter Token.isSolid, ?_, ?_⟩
  · rw [hwhole, hhanded, TokenStream.append_append]
  · change l.scanned.reverse.map Prod.fst = _
    rw [hscanned, ← List.singleton_append, List.filter_append, List.append_assoc]
    rfl

theorem peek (h : l.Follows source) : l.peek.2.Follows source := by
  rcases hq : l.queue with _ | ⟨t, queue⟩
  · rw [peek_of_queue_nil hq]
    rcases hlex : l.lexSolid with ⟨cause | t, l'⟩
    · exact h.scan_error hq hlex
    · exact h.scan_ok hq hlex
  · rw [peek_of_queue hq]
    exact h

theorem next (h : l.Follows source) : l.next.2.Follows source := by
  rcases l.next_cases with ⟨t, queue, hq, hnext⟩ | ⟨t, l', hq, hlex, hqueue, hnext⟩ |
    ⟨cause, l', hq, hlex, -, hnext⟩
  · rw [hnext]
    exact h.pop hq
  · -- Consuming a token that is not queued is queueing it first.
    have hback : { l' with queue := [] } = l' := by rw [← hqueue]
    have hpopped := (h.scan_ok hq hlex).pop rfl
    rw [hnext]
    dsimp only at hpopped ⊢
    rwa [hback] at hpopped
  · rw [hnext]
    exact h.scan_error hq hlex

theorem read (h : l.Follows source) (level : Level) : (level.read l).2.Follows source :=
  read_preserves (fun _ => peek) (fun _ => next) level l h

-- The only queued token is the next one.
theorem seesNext_of_queue {t : Token} {queue : List Token} (h : l.Follows source)
    (hq : l.queue = t :: queue) : l.SeesNext := by
  have hshort := h.short
  rw [hq, List.length_cons] at hshort
  have hnil : queue = [] := List.length_eq_zero_iff.mp (by omega)
  have hnext : l.next.1 = .ok t := congrArg Prod.fst (next_of_queue hq)
  rcases h.queued t (by rw [hq]; exact List.mem_cons_self) with ht | rfl
  · have hhanded := stream_eq_handed h.endIsLast hnext (Or.inl ht)
    rw [SeesNext, hhanded, hq, hnil, List.filter_cons_of_pos ht, List.filter_nil,
      TokenStream.tokens_append]
    rfl
  · rw [SeesNext, stream_of_end hnext, hq, hnil]
    rfl

/-- Looking scans the next token, if there is one, and none behind it. -/
theorem peek_seesNext (h : l.Follows source) : l.peek.2.SeesNext := by
  rcases hq : l.queue with _ | ⟨t, queue⟩
  · rw [peek_of_queue_nil hq]
    rcases hlex : l.lexSolid with ⟨cause | t, l'⟩
    · have hnext := next_of_lexSolid_error hq hlex
      have hseen := next_seesNext_of_error (congrArg Prod.fst hnext)
      rwa [hnext] at hseen
    · exact (h.scan_ok hq hlex).seesNext_of_queue rfl
  · rw [peek_of_queue hq]
    exact h.seesNext_of_queue hq

-- Nothing is queued behind a token that was handed out.
theorem queue_of_next (h : l.Follows source) : l.next.2.queue = [] := by
  have hshort := h.short
  rcases l.next_cases with ⟨t, queue, hq, hnext⟩ | ⟨t, l', -, -, hqueue, hnext⟩ |
    ⟨cause, l', -, -, hqueue, hnext⟩
  · rw [hq, List.length_cons] at hshort
    rw [hnext]
    change queue = []
    exact List.length_eq_zero_iff.mp (by omega)
  · rw [hnext]
    exact hqueue
  · rw [hnext]
    exact hqueue

end Follows

end Lexer

/-- What has been scanned where a rule ends. If it was to look behind its expression, or if it has
    failed, it has looked last, unless it has consumed a token in the place of a closing
    parenthesis. -/
def EndsLooking (looks : Bool) (reading : Except ParseError Expr × Lexer) : Prop :=
  match reading.1 with
  | .ok _ => looks = true → reading.2.SeesNext
  | .error (.expectedClosingParen _) => reading.2.queue = []
  | .error _ => reading.2.SeesNext

-- What has been scanned behind one thing and then another.
theorem continueWith_endsLooking {inner outer : Bool} {reading : Except ParseError Expr × Lexer}
    {continuation : Expr → Lexer → Except ParseError Expr × Lexer}
    (h : EndsLooking inner reading)
    (hcontinue : ∀ e rest, reading = (.ok e, rest) → EndsLooking outer (continuation e rest)) :
    EndsLooking outer (continueWith reading continuation) := by
  rcases reading with ⟨cause | e, rest⟩
  · cases cause with
    | _ => exact h
  · exact hcontinue e rest rfl

theorem closeGroup_endsLooking {source : String} {inner : Lexer} (h : inner.Follows source)
    (body : Expr) : EndsLooking false (closeGroup body inner) := by
  unfold closeGroup
  split
  · rename_i cause hnext
    exact Lexer.next_seesNext_of_error hnext
  · exact fun hlooks => absurd hlooks Bool.false_ne_true
  · exact h.queue_of_next

/-- What has been scanned where the rule of a level ends. The rules of the binary levels look behind
    their expression. -/
theorem read_endsLooking {source : String} (level : Level) {l : Lexer} (h : l.Follows source) :
    EndsLooking level.isBinary (level.read l) := by
  refine (read_induction
    (P := fun level l => l.Follows source → EndsLooking level.isBinary (level.read l))
    (Q := fun level l => l.Follows source → ∀ left, EndsLooking true (level.readChain left l))
    ?atom ?sign ?binary ?chain).1 level l h
  case atom =>
    intro l ih h
    rw [read_atom_of_next]
    split
    · exact h.peek_seesNext
    · exact h.peek_seesNext
    · exact fun hlooks => absurd hlooks Bool.false_ne_true
    · rename_i hopen
      have hinside := h.next
      refine continueWith_endsLooking (ih hopen hinside) fun body inner hread => ?_
      have hinner := hinside.read .sum
      rw [hread] at hinner
      exact closeGroup_endsLooking hinner body
    · exact h.peek_seesNext
  case sign =>
    intro l ihSign ihAtom h
    rw [read_sign_of_next]
    split
    · exact h.peek_seesNext
    · rename_i t ht
      split
      · exact ihAtom h.peek
      · rename_i op hop
        rcases Token.operatorIf?_eq_some.mp hop with ⟨rfl, hsign⟩
        exact continueWith_endsLooking (ihSign op ht hsign h.next) fun _ _ _ hlooks =>
          absurd hlooks Bool.false_ne_true
  case binary =>
    intro level l hlevel ih ihChain h
    rw [read_binary hlevel, hlevel]
    refine continueWith_endsLooking (ih h) fun first rest hfirst => ?_
    have hrest := h.read level.tighter
    rw [hfirst] at hrest
    exact ihChain first rest hfirst hrest first
  case chain =>
    intro level l ih h left
    rw [readChain_of_next]
    split
    · exact h.peek_seesNext
    · rename_i t ht
      split
      · exact fun _ => h.peek_seesNext
      · rename_i op hop
        rcases Token.operatorIf?_eq_some.mp hop with ⟨rfl, hjoins⟩
        rcases ih op ht hjoins with ⟨ihOperand, ihRest⟩
        refine continueWith_endsLooking (ihOperand h.next) fun right rest hright => ?_
        have hrest := h.next.read level.tighter
        rw [hright] at hrest
        exact ihRest right rest hright hrest _

-- A statement ends as the sum does that it is made of.
theorem readStatement_follows (source : String) :
    (Lexer.ofText source).readStatement.2.Follows source := by
  rw [readStatement_eq]
  exact continueWith_preserves ((Lexer.follows_ofText source).read .sum) fun _ _ _ hrest => hrest

theorem readStatement_endsLooking (source : String) :
    EndsLooking true (Lexer.ofText source).readStatement := by
  have hsum := read_endsLooking .sum (Lexer.follows_ofText source)
  rw [readStatement_eq]
  refine continueWith_endsLooking hsum fun e rest hread => ?_
  rw [hread] at hsum
  exact hsum

/-- Reading a text scans its tokens up to and including the one that decides what is read, each of
    them once, and takes them down with the places where they begin. -/
theorem scanned_decidedBy (source : String) :
    (Lexer.ofText source).readStatement.2.scanned.reverse <+: (Lexer.ofText source).places ∧
      (Lexer.ofText source).stream.DecidedBy (parse source)
        ((Lexer.ofText source).readStatement.2.scanned.reverse.map Prod.fst) := by
  have hfollows := readStatement_follows source
  have hends := readStatement_endsLooking source
  rcases hfollows.accounted with ⟨w, hwhole, hscanned⟩
  refine ⟨⟨_, hfollows.trail_eq⟩, ?_⟩
  rw [hscanned]
  rw [EndsLooking] at hends
  rcases hparse : parse source with cause | tree
  · have hscan := statement_scans (.start source)
    rw [parse] at hparse
    rw [hparse] at hscan hends
    refine TokenStream.decidedBy_of_scan hscan hwhole ?_
    cases cause with
    | expectedClosingParen found => rw [hends, List.filter_nil]
    | _ => exact hends
  · rcases exists_splits_of_parse hparse with ⟨e, w', htree, hsplits⟩
    rw [parse] at hparse
    rw [hparse] at hends
    rw [hends rfl, htree, ← TokenStream.append_left_injective (hsplits.whole_eq.symm.trans hwhole)]
    exact .expression hsplits

end Reckoner
