import Reckoner.Proofs.Lexer.Stream

/-!
# Reachable Lexers

The lexers that can come about: a lexer at the start of some text, and whatever
the operations make of it, in any order and also after errors. The raw operations
are among them. They move the scanner past queued tokens as they like, so a
reachable lexer may have a queue that does not match its position.

One thing stays true all the same. The end of the input is found only when
nothing is left to read, and after that nothing else can be found, so behind an
end in the queue there are only ends (`EndIsLast`). The type of lexers does not say
so, and for a lexer put together by hand it may fail. With it, consuming a token
drops the first of the stream even when the stream has ended
(`stream_next`): what has ended stays at its end.

## Main definitions

* `Lexer.Call`: The operations that respect the queue.
* `Lexer.Step`: All operations.
* `Lexer.Reachable`: The lexers that come about by operations.
* `Lexer.EndIsLast`: Nothing stands behind the end.
* `TokenStream.tail`: A stream without its first token.

## Theorems

* `endIsLast_of_queue_suffix`: Dropping queued tokens keeps the end last.
* `endIsLast_of_lexSolid`: Queueing the next token keeps the end last.
* `Reachable.endIsLast`: The end is last in every reachable lexer.
* `ends_of_next`: After the end there are only ends.
* `stream_next`: Consuming a token drops the first of the stream.
-/

namespace Reckoner

/-- A stream without its first token. A stream that has ended, and one that cannot
    go on, stay as they are. -/
def TokenStream.tail : TokenStream → TokenStream
  | ending => ending
  | failing cause => failing cause
  | token _ rest => rest

namespace Lexer

/-- An operation that respects the queue. -/
inductive Call where
  | peek
  | lookahead (n : Nat)
  | next
  deriving DecidableEq

/-- The lexer that a call leaves. -/
def after (l : Lexer) : Call → Lexer
  | .peek => l.peek.2
  | .lookahead n => (l.lookahead n).2
  | .next => l.next.2

/-- An operation on a lexer, the raw ones included. -/
inductive Step where
  | call (c : Call)
  | lex
  | advance

/-- The lexer that an operation leaves. -/
def step (l : Lexer) : Step → Lexer
  | .call c => l.after c
  | .lex => l.lex.2
  | .advance => l.advance.2

/-- The lexers that come about by operations. -/
inductive Reachable : Lexer → Prop
  | start (text : String) : Reachable (ofText text)
  | step {l : Lexer} (s : Step) (h : Reachable l) : Reachable (l.step s)

/-- Behind a queued end of the input there is nothing but further ends, and nothing
    is left to read. -/
def EndIsLast (l : Lexer) : Prop :=
  ∀ before behind : List Token, l.queue = before ++ .endOfInput :: behind →
    l.unread = [] ∧ ∀ t ∈ behind, t = .endOfInput

-- Dropping queued tokens from the front, and reading on, keep the end last.
theorem endIsLast_of_queue_suffix {l l' : Lexer} (h : l.EndIsLast)
    (hqueue : l'.queue <:+ l.queue) (hunread : l.unread = [] → l'.unread = []) :
    l'.EndIsLast := by
  intro before behind hsplit
  rcases hqueue with ⟨dropped, hdropped⟩
  rw [hsplit, ← List.append_assoc] at hdropped
  rcases h _ _ hdropped.symm with ⟨hnil, hends⟩
  exact ⟨hunread hnil, hends⟩

-- Queueing the next token keeps the end last: it is the end itself if the end is queued
-- already.
theorem endIsLast_of_lexSolid {l l' : Lexer} {t : Token} (h : l.EndIsLast)
    (hlex : l.lexSolid = (.ok t, l')) :
    EndIsLast { l' with queue := l'.queue ++ [t] } := by
  have hqueue := queue_of_lexSolid hlex
  intro before behind hsplit
  dsimp only at hsplit ⊢
  rcases List.eq_nil_or_concat behind with rfl | ⟨behind', t', rfl⟩
  · -- The token queued last is the only end.
    have ht : t = .endOfInput := (List.append_inj' hsplit rfl).2 |> List.singleton_inj.mp
    have hend := unread_nil_of_lexSolid_end (l := l) (by rw [hlex, ht])
    rw [hlex] at hend
    exact ⟨hend, fun t ht => absurd ht List.not_mem_nil⟩
  · rw [List.concat_eq_append, ← List.cons_append, ← List.append_assoc] at hsplit
    rcases List.append_inj' hsplit rfl with ⟨hbefore, ht⟩
    rw [hqueue] at hbefore
    rcases h _ _ hbefore with ⟨hnil, hends⟩
    have hend := lexSolid_of_unread_nil hnil
    rw [hlex] at hend
    refine ⟨hend.2, fun t'' ht'' => ?_⟩
    rw [List.concat_eq_append, List.mem_append, List.mem_singleton] at ht''
    rcases ht'' with hmem | rfl
    · exact hends t'' hmem
    · rw [← List.singleton_inj.mp ht]
      exact Except.ok.inj hend.1

theorem unread_nil_of_skip {l : Lexer} (n : Nat) (h : l.unread = []) : (l.skip n).unread = [] := by
  simp only [skip, h, List.drop_nil]

theorem unread_nil_of_lex {l : Lexer} (h : l.unread = []) : l.lex.2.unread = [] := by
  rw [← List.length_eq_zero_iff] at h ⊢
  have hle := l.lex_unread_le
  omega

theorem unread_nil_of_lexSolid {l : Lexer} (h : l.unread = []) : l.lexSolid.2.unread = [] :=
  unread_nil_of_lex (unread_nil_of_skip _ h)

theorem lexSolid_endIsLast {l : Lexer} (h : l.EndIsLast) : l.lexSolid.2.EndIsLast :=
  endIsLast_of_queue_suffix h ⟨[], l.lexSolid_queue⟩ unread_nil_of_lexSolid

theorem enqueue_endIsLast (n : Nat) {l : Lexer} (h : l.EndIsLast) : (enqueue n l).2.EndIsLast := by
  induction n generalizing l with
  | zero => exact h
  | succ n ih =>
      rcases hlex : l.lexSolid with ⟨cause | t, l'⟩
      · have hfailed := lexSolid_endIsLast h
        rw [hlex] at hfailed
        simp only [enqueue, hlex]
        exact hfailed
      · simp only [enqueue, hlex]
        exact ih (endIsLast_of_lexSolid h hlex)

theorem lookahead_snd (n : Nat) (l : Lexer) :
    (l.lookahead n).2 = (enqueue (max n 1 - l.queue.length) l).2 := by
  unfold lookahead
  dsimp only
  split
  · rename_i l' henqueue
    rw [henqueue]
  · rename_i cause l' henqueue
    rw [henqueue]

theorem next_endIsLast {l : Lexer} (h : l.EndIsLast) : l.next.2.EndIsLast := by
  have hscanned := lexSolid_endIsLast h
  rcases l.next_cases with ⟨t, queue, hq, hnext⟩ | ⟨t, l', -, hlex, -, hnext⟩ |
    ⟨cause, l', -, hlex, -, hnext⟩
  · rw [hnext]
    refine endIsLast_of_queue_suffix h ?_ id
    rw [hq]
    exact List.suffix_cons t queue
  · rw [hlex] at hscanned
    rw [hnext]
    exact hscanned
  · rw [hlex] at hscanned
    rw [hnext]
    exact hscanned

theorem after_endIsLast {l : Lexer} (c : Call) (h : l.EndIsLast) : (l.after c).EndIsLast := by
  cases c with
  | peek =>
      rw [after, peek, lookahead_snd]
      exact enqueue_endIsLast _ h
  | lookahead n =>
      rw [after, lookahead_snd]
      exact enqueue_endIsLast _ h
  | next => exact next_endIsLast h

theorem step_endIsLast {l : Lexer} (s : Step) (h : l.EndIsLast) : (l.step s).EndIsLast := by
  cases s with
  | call c => exact after_endIsLast c h
  | lex => exact endIsLast_of_queue_suffix h ⟨[], l.lex_queue⟩ unread_nil_of_lex
  | advance => exact endIsLast_of_queue_suffix h (List.suffix_refl _) (unread_nil_of_skip 1)

/-- In a reachable lexer the end of the input is last. -/
theorem Reachable.endIsLast {l : Lexer} (h : l.Reachable) : l.EndIsLast := by
  induction h with
  | start text =>
      intro before behind hsplit
      exact absurd hsplit.symm (by simp only [ofText, List.append_eq_nil_iff, reduceCtorEq,
        and_false, not_false_eq_true])
  | step s _ ih => exact step_endIsLast s ih

-- After the end has been handed out nothing is left but ends.
theorem ends_of_next {l : Lexer} (h : l.EndIsLast) (hnext : l.next.1 = .ok .endOfInput) :
    l.next.2.unread = [] ∧ ∀ t ∈ l.next.2.queue, t = .endOfInput := by
  rcases l.next_cases with ⟨t, queue, hq, hcase⟩ | ⟨t, l', -, hlex, hqueue, hcase⟩ |
    ⟨cause, l', -, -, -, hcase⟩
  · rw [hcase] at hnext ⊢
    exact h [] queue (by rw [hq, Except.ok.inj hnext]; rfl)
  · rw [hcase] at hnext ⊢
    have hunread := unread_nil_of_lexSolid_end (l := l) (by rw [hlex]; exact hnext)
    rw [hlex] at hunread
    refine ⟨hunread, ?_⟩
    simp only [consumed, hqueue, List.not_mem_nil, false_implies, implies_true]
  · rw [hcase] at hnext
    cases hnext

/-- Consuming a token drops the first of the stream. At the end, and where no token
    can be read, the stream stays as it is. -/
theorem stream_next {l : Lexer} (h : l.EndIsLast) : l.next.2.stream = l.stream.tail := by
  rcases hnext : l.next.1 with cause | t
  · rw [stream_congr (next_again hnext), stream_of_error hnext, TokenStream.tail]
  · by_cases ht : t = .endOfInput
    · rw [ht] at hnext
      rcases ends_of_next h hnext with ⟨hunread, hqueue⟩
      rw [stream_of_end hnext, stream_of_end (next_of_ends hunread hqueue), TokenStream.tail]
    · rw [stream_of_token hnext (Token.isEnd_eq_false ht), TokenStream.tail]

end Lexer

end Reckoner
