import Reckoner.Proofs.Lexer.Literals
import Reckoner.Proofs.Lexer.Lookahead
import Reckoner.Proofs.Lexer.Places

/-!
# Where Tokens Come From

That whatever a lexer holds is a piece of its text.

The raw operations move the scanner as they like, so the tokens in a queue need not stand
side by side in the text, and the number consumed last may stand anywhere before or behind
them. Each of them by itself was scanned, though, and a scan finds a lexeme at the front
of what is unread, which is an end of the text. This makes `Token.ComesFrom` an invariant
of all that a lexer holds (`Over`): every operation keeps it, and every token that is
handed out or seen ahead has it too. In particular no blank ever gets into the queue.

No operation goes back in the text (`step_unread`), so the position never decreases either.

## Main definitions

* `Token.ComesFrom`: A token is the end of a text or a piece of it.
* `Lexer.Over`: A lexer goes through a text and holds tokens of it only.

## Theorems

* `step_unread`: No operation goes back in the text.
* `step_literal`: Only consuming a number changes the literal that is held.
* `Over.scanned`: What is scanned comes from the text.
* `Over.step`, `Over.run`: Every operation stays over the text.
* `Over.next`, `Over.lookahead_comesFrom`: The answers come from the text.
* `Over.stream_comesFrom`: So does everything that will be handed out.
-/

namespace Reckoner

/-- A token is the end of a text, or a lexeme that is spelled somewhere in it. -/
def Token.ComesFrom (source : List Char) (t : Token) : Prop :=
  t = .endOfInput ∨ t.IsLexeme ∧ t.spelling <:+: source

namespace Token.ComesFrom

variable {source : List Char} {literal : String}

/-- A number that comes from a text is a literal in it. -/
theorem number (h : (Token.number literal).ComesFrom source) :
    Literal.IsLiteral literal.toList ∧ literal.toList <:+: source := by
  rcases h with hend | hfound
  · cases hend
  · exact hfound

end Token.ComesFrom

namespace Lexer

theorem skip_unread (n : Nat) (l : Lexer) : (l.skip n).unread <:+ l.unread :=
  List.drop_suffix n l.unread

theorem lex_unread (l : Lexer) : l.lex.2.unread <:+ l.unread := by
  rcases hlex : l.lex with ⟨cause | t, l'⟩
  · rcases lex_eq_error hlex
    exact List.suffix_refl _
  · rcases lex_eq_ok hlex
    exact l.skip_unread t.width

theorem lexSolid_unread (l : Lexer) : l.lexSolid.2.unread <:+ l.unread :=
  l.skipBlanks.lex_unread.trans (l.skip_unread _)

theorem enqueue_unread (n : Nat) (l : Lexer) : (enqueue n l).2.unread <:+ l.unread := by
  induction n generalizing l with
  | zero => exact List.suffix_refl _
  | succ n ih =>
      have hscanned := l.lexSolid_unread
      rcases hlex : l.lexSolid with ⟨cause | t, l'⟩
      · rw [hlex] at hscanned
        simp only [enqueue, hlex]
        exact hscanned
      · rw [hlex] at hscanned
        simp only [enqueue, hlex]
        exact (ih _).trans hscanned

theorem next_unread (l : Lexer) : l.next.2.unread <:+ l.unread := by
  have hscanned := l.lexSolid_unread
  rcases l.next_cases with ⟨t, queue, -, hnext⟩ | ⟨t, l', -, hlex, -, hnext⟩ |
    ⟨cause, l', -, hlex, -, hnext⟩
  · have hsame : l.next.2.unread = l.unread := congrArg (fun answer => answer.2.unread) hnext
    exact hsame ▸ List.suffix_refl _
  · rw [hlex] at hscanned
    rw [hnext]
    exact hscanned
  · rw [hlex] at hscanned
    rw [hnext]
    exact hscanned

/-- No operation goes back in the text. -/
theorem step_unread (s : Step) (l : Lexer) : (l.step s).unread <:+ l.unread := by
  cases s with
  | call c =>
      cases c with
      | peek =>
          rw [step, after, peek, lookahead_snd]
          exact enqueue_unread _ l
      | lookahead n =>
          rw [step, after, lookahead_snd]
          exact enqueue_unread _ l
      | next => exact l.next_unread
  | lex => exact l.lex_unread
  | advance => exact l.skip_unread 1

/-- Only consuming a number changes the literal that is held. -/
theorem step_literal (s : Step) (l : Lexer) :
    (l.step s).literal = match s, l.next.1 with
      | .call .next, .ok t => t.literal?.or l.literal
      | _, _ => l.literal := by
  cases s with
  | call c =>
      cases c with
      | peek => exact (l.lookahead_alike 1).literal
      | lookahead n => exact (l.lookahead_alike n).literal
      | next =>
          rcases l.next_cases with ⟨t, queue, -, hnext⟩ | ⟨t, l', -, hlex, -, hnext⟩ |
            ⟨cause, l', -, hlex, -, hnext⟩
          · rw [step, after, hnext]
            rfl
          · rw [step, after, hnext]
            dsimp only [consumed]
            rw [literal_of_lexSolid hlex]
          · rw [step, after, hnext]
            exact literal_of_lexSolid hlex
  | lex =>
      rcases hlex : l.lex with ⟨cause | t, l'⟩
      · rw [step, hlex, lex_eq_error hlex]
      · rw [step, hlex, lex_eq_ok hlex]
        rfl
  | advance => rfl

/-- A lexer goes through a text, and the tokens that it holds come from there. -/
structure Over (source : List Char) (l : Lexer) : Prop where
  unread : l.unread <:+ source
  queued : ∀ t ∈ l.queue, t.ComesFrom source
  held : ∀ literal, l.literal = some literal → (Token.number literal).ComesFrom source

namespace Over

variable {source : List Char} {l l' : Lexer}

theorem start (text : String) : Over text.toList (ofText text) :=
  ⟨List.suffix_refl _, nofun, nofun⟩

theorem skip (n : Nat) (h : l.Over source) : (l.skip n).Over source :=
  ⟨(l.skip_unread n).trans h.unread, h.queued, h.held⟩

-- What has been taken down does not count, so a token that is taken is skipped.
theorem of_lex {answer : Except LexError Token} (h : l.Over source) (hlex : l.lex = (answer, l')) :
    l'.Over source := by
  rcases answer with cause | t
  · rw [lex_eq_error hlex]
    exact h
  · rw [lex_eq_ok hlex]
    exact { h.skip t.width with unread := (h.skip t.width).unread }

theorem of_lexSolid {answer : Except LexError Token} (h : l.Over source)
    (hlex : l.lexSolid = (answer, l')) : l'.Over source :=
  (h.skip _).of_lex hlex

/-- What is scanned comes from the text. -/
theorem scanned {t : Token} (h : l.Over source) (hlex : l.lexSolid = (.ok t, l')) :
    t.ComesFrom source := by
  rcases lex_ok_cases hlex with ⟨hend, -⟩ | ⟨c, -, hc, hunread⟩ | ⟨hfound, hunread⟩
  · exact Or.inl hend
  · exact absurd (hc.symm.trans (isBlank_head_skipBlanks hunread)) Bool.noConfusion
  · refine Or.inr ⟨hfound.isLexeme, ?_⟩
    have hfront : t.spelling <+: l.skipBlanks.unread := ⟨_, hunread.symm⟩
    exact hfront.isInfix.trans (h.skip _).unread.isInfix

theorem enqueue (n : Nat) (h : l.Over source) : (Lexer.enqueue n l).2.Over source := by
  induction n generalizing l with
  | zero => exact h
  | succ n ih =>
      rcases hlex : l.lexSolid with ⟨cause | t, l'⟩
      · simp only [Lexer.enqueue, hlex]
        exact h.of_lexSolid hlex
      · have hrest := h.of_lexSolid hlex
        simp only [Lexer.enqueue, hlex]
        refine ih ⟨hrest.unread, fun t' ht' => ?_, hrest.held⟩
        rcases List.mem_append.mp ht' with hmem | hmem
        · exact hrest.queued t' hmem
        · rw [List.mem_singleton.mp hmem]
          exact h.scanned hlex

theorem lookahead (n : Nat) (h : l.Over source) : (l.lookahead n).2.Over source := by
  rw [lookahead_snd]
  exact h.enqueue _

-- A number that is consumed is held from then on.
theorem consumed {t : Token} (h : l.Over source) (ht : t.ComesFrom source) :
    (l.consumed t).Over source := by
  refine ⟨h.unread, h.queued, fun literal hheld => ?_⟩
  cases t with
  | number literal' =>
      rw [← Option.some.inj hheld]
      exact ht
  | _ => exact h.held literal hheld

/-- What is consumed comes from the text, and what is left goes on over it. -/
theorem next (h : l.Over source) :
    (∀ t, l.next.1 = .ok t → t.ComesFrom source) ∧ l.next.2.Over source := by
  rcases l.next_cases with ⟨t, queue, hq, hnext⟩ | ⟨t, l', -, hlex, -, hnext⟩ |
    ⟨cause, l', -, hlex, -, hnext⟩
  · have hqueued := h.queued
    rw [hq] at hqueued
    rcases List.forall_mem_cons.mp hqueued with ⟨ht, hrest⟩
    have hover : Over source { l with queue := queue } := ⟨h.unread, hrest, h.held⟩
    rw [hnext]
    exact ⟨fun t' ht' => Except.ok.inj ht' ▸ ht, hover.consumed ht⟩
  · have ht := h.scanned hlex
    rw [hnext]
    exact ⟨fun t' ht' => Except.ok.inj ht' ▸ ht, (h.of_lexSolid hlex).consumed ht⟩
  · rw [hnext]
    exact ⟨nofun, h.of_lexSolid hlex⟩

/-- Every operation stays over the text. -/
theorem step (s : Step) (h : l.Over source) : (l.step s).Over source := by
  cases s with
  | call c =>
      cases c with
      | peek => exact h.lookahead 1
      | lookahead n => exact h.lookahead n
      | next => exact h.next.2
  | lex => exact h.of_lex rfl
  | advance => exact h.skip 1

/-- So do several of them. -/
theorem run (steps : List Step) (h : l.Over source) : (steps.foldl Lexer.step l).Over source := by
  induction steps generalizing l with
  | nil => exact h
  | cons s steps ih => exact ih (h.step s)

/-- What is seen ahead comes from the text. -/
theorem lookahead_comesFrom {n : Nat} {t : Token} (h : l.Over source)
    (ht : (l.lookahead n).1 = .ok t) : t.ComesFrom source := by
  by_cases hend : t = .endOfInput
  · exact Or.inl hend
  · exact (h.lookahead n).queued t (mem_queue_of_lookahead ht hend)

/-- Everything that will be handed out comes from the text. -/
theorem stream_comesFrom (h : l.Over source) : ∀ t ∈ l.stream.tokens, t.ComesFrom source := by
  induction l using next_induction with
  | failed l cause hnext =>
      rw [stream_of_error hnext]
      exact nofun
  | ended l hnext =>
      rw [stream_of_end hnext]
      exact nofun
  | token l t hnext ht ih =>
      rw [stream_of_token hnext ht, TokenStream.tokens]
      exact List.forall_mem_cons.mpr ⟨h.next.1 t hnext, ih h.next.2⟩

end Over

end Lexer

end Reckoner
