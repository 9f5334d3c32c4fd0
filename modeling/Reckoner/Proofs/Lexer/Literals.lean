import Reckoner.Proofs.Expr.Value
import Reckoner.Proofs.Lexer.Reachable

/-!
# Literals in Lexers

That every number text a lexer comes up with is a literal.

A number leaves a lexer in several ways: it is scanned, consumed, or seen ahead, and
after it was consumed the lexer still knows its text. Between these a token may wait in
the queue for any time. The form that the scanner gives a number is therefore an
invariant of what the lexer holds (`HoldsLiterals`), which every operation keeps, and
which holds at the start since nothing is held there.

Together with the reader of literals, which takes every text in that form, this says
that no number found in a text is refused when it is evaluated (`value_of_produces`).

## Main definitions

* `Lexer.HoldsLiterals`: The numbers that a lexer holds are literals.
* `Lexer.Produces`: A lexer comes up with a text as the text of a number.

## Theorems

* `Reachable.holdsLiterals`: Every reachable lexer holds literals only.
* `value_of_produces`: What a reachable lexer comes up with has a value.
-/

namespace Reckoner

namespace Lexer

/-- The numbers that a lexer holds, in its queue or as the one consumed last, are
    literals. -/
structure HoldsLiterals (l : Lexer) : Prop where
  queued : ∀ literal, .number literal ∈ l.queue → Literal.IsLiteral literal.toList
  held : ∀ literal, l.literal = some literal → Literal.IsLiteral literal.toList

/-- A lexer comes up with a text as the text of a number. -/
inductive Produces (l : Lexer) : String → Prop
  | scanned {literal : String} (h : l.lex.1 = .ok (.number literal)) : Produces l literal
  | consumed {literal : String} (h : l.next.1 = .ok (.number literal)) : Produces l literal
  | seen {literal : String} (n : Nat) (h : (l.lookahead n).1 = .ok (.number literal)) :
      Produces l literal
  | kept {literal : String} (h : l.literal = some literal) : Produces l literal

-- What is held depends on the queue and on the number consumed last, and on nothing else.
theorem holdsLiterals_congr {l l' : Lexer} (h : l.HoldsLiterals) (hqueue : l'.queue = l.queue)
    (hliteral : l'.literal = l.literal) : l'.HoldsLiterals :=
  ⟨by rw [hqueue]; exact h.queued, by rw [hliteral]; exact h.held⟩

-- A number that is consumed is a literal, and the lexer holds on to it.
theorem holdsLiterals_consumed {l : Lexer} {t : Token} (h : l.HoldsLiterals)
    (ht : ∀ literal, t = .number literal → Literal.IsLiteral literal.toList) :
    (l.consumed t).HoldsLiterals := by
  refine ⟨h.queued, fun literal hheld => ?_⟩
  cases t with
  | number literal' =>
      rw [← Option.some.inj hheld]
      exact ht literal' rfl
  | _ => exact h.held literal hheld

-- So is a number that is queued.
theorem holdsLiterals_queued {l : Lexer} {t : Token} (h : l.HoldsLiterals)
    (ht : ∀ literal, t = .number literal → Literal.IsLiteral literal.toList) :
    HoldsLiterals { l with queue := l.queue ++ [t] } := by
  refine ⟨fun literal hmem => ?_, h.held⟩
  rcases List.mem_append.mp hmem with hmem | hmem
  · exact h.queued literal hmem
  · exact ht literal (List.mem_singleton.mp hmem).symm

theorem lexSolid_holdsLiterals {l : Lexer} (h : l.HoldsLiterals) : l.lexSolid.2.HoldsLiterals :=
  holdsLiterals_congr h l.lexSolid_queue l.lexSolid_literal

theorem enqueue_holdsLiterals (n : Nat) {l : Lexer} (h : l.HoldsLiterals) :
    (enqueue n l).2.HoldsLiterals := by
  induction n generalizing l with
  | zero => exact h
  | succ n ih =>
      have hscanned := lexSolid_holdsLiterals h
      rcases hlex : l.lexSolid with ⟨cause | t, l'⟩
      · rw [hlex] at hscanned
        simp only [enqueue, hlex]
        exact hscanned
      · rw [hlex] at hscanned
        simp only [enqueue, hlex]
        refine ih (holdsLiterals_queued hscanned fun literal ht => ?_)
        exact isLiteral_of_lexSolid (congrArg Prod.fst (hlex.trans (by rw [ht])))

theorem lookahead_holdsLiterals (n : Nat) {l : Lexer} (h : l.HoldsLiterals) :
    (l.lookahead n).2.HoldsLiterals := by
  rw [lookahead_snd]
  exact enqueue_holdsLiterals _ h

theorem next_holdsLiterals {l : Lexer} (h : l.HoldsLiterals) : l.next.2.HoldsLiterals := by
  have hnumber := (next_numbers h.queued).1
  have hscanned := lexSolid_holdsLiterals h
  rcases l.next_cases with ⟨t, queue, hq, hnext⟩ | ⟨t, l', -, hlex, -, hnext⟩ |
    ⟨cause, l', -, hlex, -, hnext⟩
  · rw [hnext] at hnumber ⊢
    have hrest : HoldsLiterals { l with queue := queue } :=
      ⟨fun literal hmem => h.queued literal (by rw [hq]; exact List.mem_cons_of_mem t hmem), h.held⟩
    exact holdsLiterals_consumed hrest fun literal ht => hnumber literal (by rw [ht])
  · rw [hlex] at hscanned
    rw [hnext] at hnumber ⊢
    exact holdsLiterals_consumed hscanned fun literal ht => hnumber literal (by rw [ht])
  · rw [hlex] at hscanned
    rw [hnext]
    exact hscanned

theorem step_holdsLiterals {l : Lexer} (s : Step) (h : l.HoldsLiterals) :
    (l.step s).HoldsLiterals := by
  cases s with
  | call c =>
      cases c with
      | peek => exact lookahead_holdsLiterals 1 h
      | lookahead n => exact lookahead_holdsLiterals n h
      | next => exact next_holdsLiterals h
  | lex =>
      have hliteral : l.lex.2.literal = l.literal := by
        unfold lex
        split
        · rfl
        · rfl
      exact holdsLiterals_congr h l.lex_queue hliteral
  | advance => exact holdsLiterals_congr h rfl rfl

/-- Every reachable lexer holds literals only. -/
theorem Reachable.holdsLiterals {l : Lexer} (h : l.Reachable) : l.HoldsLiterals := by
  induction h with
  | start text => exact ⟨nofun, nofun⟩
  | step s _ ih => exact step_holdsLiterals s ih

-- A token that is seen ahead is in the queue afterwards, or it is the end.
theorem mem_queue_of_lookahead {l : Lexer} {n : Nat} {t : Token}
    (h : (l.lookahead n).1 = .ok t) (ht : t ≠ .endOfInput) : t ∈ (l.lookahead n).2.queue := by
  unfold lookahead at h ⊢
  dsimp only at h ⊢
  split at h
  · rename_i l' henqueue
    rw [Except.ok.injEq] at h
    rw [List.getD_eq_getElem?_getD] at h
    rcases hget : l'.queue[max n 1 - 1]? with _ | t'
    · rw [hget] at h
      exact absurd h.symm ht
    · rw [hget, Option.getD_some] at h
      rw [← h]
      exact List.mem_of_getElem? hget
  · cases h

/-- What a reachable lexer comes up with as the text of a number has a value. -/
theorem value_of_produces {l : Lexer} {literal : String} (hl : l.Reachable)
    (h : l.Produces literal) : ∃ x, Literal.value literal = .ok x := by
  refine Literal.value_of_isLiteral ?_
  cases h with
  | scanned h => exact isLiteral_of_lex h
  | consumed h => exact (next_numbers hl.holdsLiterals.queued).1 literal h
  | seen n h =>
      exact (lookahead_holdsLiterals n hl.holdsLiterals).queued literal
        (mem_queue_of_lookahead h Token.noConfusion)
  | kept h => exact hl.holdsLiterals.held literal h

end Lexer

end Reckoner
