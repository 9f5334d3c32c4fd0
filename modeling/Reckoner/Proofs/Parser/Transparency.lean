import Reckoner.Proofs.Lexer.Lookahead
import Reckoner.Proofs.Parser.Descent

/-!
# Transparency of Looking Ahead

Looking ahead changes nothing that anybody can see, the parser included.

That a caller of the lexer sees nothing of it is shown where looking ahead is. The
parser is such a caller, if a complicated one: it looks and consumes and does nothing
else, and looking and consuming keep lexers alike. So from alike lexers every rule
reads the same and leaves lexers that are alike again (`read_alike`). The two runs
make the same calls in the same order, which is why the induction along the calls of
one of them does for both.

## Main definitions

* `SameReading`: The same outcome, and lexers left that are alike.

## Theorems

* `continueWith_alike`: The same reading and then the same again.
* `read_alike`: Every rule reads the same from alike lexers.
* `lookahead_transparent`: Looking ahead cannot be seen.
-/

namespace Reckoner

/-- The same outcome, and lexers left that are alike. -/
structure SameReading (r r' : Except ParseError Expr × Lexer) : Prop where
  outcome : r.1 = r'.1
  rest : Lexer.Alike r.2 r'.2

-- What follows the same reading is the same if the continuation reads the same from
-- alike lexers.
theorem continueWith_alike {r r' : Except ParseError Expr × Lexer}
    {continuation : Expr → Lexer → Except ParseError Expr × Lexer} (h : SameReading r r')
    (hcontinue : ∀ e rest rest', r = (.ok e, rest) → Lexer.Alike rest rest' →
      SameReading (continuation e rest) (continuation e rest')) :
    SameReading (continueWith r continuation) (continueWith r' continuation) := by
  rcases r with ⟨cause | e, rest⟩
  all_goals rcases r' with ⟨outcome', rest'⟩
  all_goals rcases h with ⟨houtcome, hrest⟩
  all_goals dsimp only at houtcome
  all_goals subst houtcome
  · exact ⟨rfl, hrest⟩
  · exact hcontinue e rest rest' rfl hrest

theorem closeGroup_alike {l l' : Lexer} (h : Lexer.Alike l l') (body : Expr) :
    SameReading (closeGroup body l) (closeGroup body l') := by
  rcases h.next with ⟨hanswer, hrest⟩
  unfold closeGroup
  rw [← hanswer]
  split
  all_goals exact ⟨rfl, hrest⟩

/-- Every rule reads the same from alike lexers. -/
theorem read_alike (level : Level) {l l' : Lexer} (h : Lexer.Alike l l') :
    SameReading (level.read l) (level.read l') := by
  have hpeek : ∀ {l l' : Lexer}, Lexer.Alike l l' → Lexer.Alike l.peek.2 l'.peek.2 :=
    fun {l l'} h => (l.peek_alike.trans h).trans l'.peek_alike.symm
  refine (read_induction
    (P := fun level l => ∀ l', Lexer.Alike l l' → SameReading (level.read l) (level.read l'))
    (Q := fun level l => ∀ left l', Lexer.Alike l l' →
      SameReading (level.readChain left l) (level.readChain left l'))
    ?atom ?sign ?binary ?chain).1 level l l' h
  case atom =>
    intro l ih l' h
    rcases h.next with ⟨hanswer, hrest⟩
    rw [read_atom_of_next l, read_atom_of_next l', ← hanswer]
    split
    · exact ⟨rfl, hpeek h⟩
    · exact ⟨rfl, hpeek h⟩
    · exact ⟨rfl, hrest⟩
    · rename_i hopen
      exact continueWith_alike (ih hopen _ hrest) fun body _ _ _ hinner =>
        closeGroup_alike hinner body
    · exact ⟨rfl, hpeek h⟩
  case sign =>
    intro l ihSign ihAtom l' h
    rcases h.next with ⟨hanswer, hrest⟩
    rw [read_sign_of_next l, read_sign_of_next l', ← hanswer]
    split
    · exact ⟨rfl, hpeek h⟩
    · rename_i t ht
      split
      · exact ihAtom _ (hpeek h)
      · rename_i op hop
        rcases Token.operatorIf?_eq_some.mp hop with ⟨rfl, hsign⟩
        exact continueWith_alike (ihSign op ht hsign _ hrest) fun _ _ _ _ hbehind => ⟨rfl, hbehind⟩
  case binary =>
    intro level l hlevel ih ihChain l' h
    rw [read_binary hlevel l, read_binary hlevel l']
    exact continueWith_alike (ih l' h) fun first rest rest' hfirst hbehind =>
      ihChain first rest hfirst first rest' hbehind
  case chain =>
    intro level l ih left l' h
    rcases h.next with ⟨hanswer, hrest⟩
    rw [readChain_of_next level left l, readChain_of_next level left l', ← hanswer]
    split
    · exact ⟨rfl, hpeek h⟩
    · rename_i t ht
      split
      · exact ⟨rfl, hpeek h⟩
      · rename_i op hop
        rcases Token.operatorIf?_eq_some.mp hop with ⟨rfl, hjoins⟩
        rcases ih op ht hjoins with ⟨ihOperand, ihRest⟩
        exact continueWith_alike (ihOperand _ hrest) fun right rest rest' hright hbehind =>
          ihRest right rest hright _ rest' hbehind

theorem readStatement_alike {l l' : Lexer} (h : Lexer.Alike l l') :
    SameReading l.readStatement l'.readStatement := by
  rw [readStatement_eq l, readStatement_eq l']
  exact continueWith_alike (read_alike .sum h) fun _ _ _ _ hbehind => ⟨rfl, hbehind⟩

/-- Looking ahead cannot be seen. Whatever calls are made to a lexer, one at the start
    of a text or any other,

    * consuming answers as if there had been no other calls, and so does the
      literal,
    * looking at the next token or at a later one keeps the literal,
    * what looking ahead answers is a token exactly if as many tokens could be consumed
      and it is the last of them, and an error exactly if it is the first that consuming
      as many would meet,
    * every rule reads the same as if there had been no other calls, and leaves the same
      tokens. -/
theorem lookahead_transparent (l : Lexer) (calls : List Lexer.Call) :
    let ahead := l.afterAll calls
    let plain := l.afterAll (List.replicate (calls.count .next) .next)
    l.answersAmong calls = l.answers (calls.count .next) ∧
      (∀ n, (ahead.lookahead n).2.literal = ahead.literal ∧ ahead.peek.2.literal = ahead.literal) ∧
      (∀ n t, (ahead.lookahead n).1 = .ok t ↔ ∃ before : List Token,
        (ahead.answers (max n 1)).map Prod.fst = (before ++ [t]).map .ok) ∧
      (∀ n cause, (ahead.lookahead n).1 = .error cause ↔
        ∃ (before : List Token) (behind : List (Except LexError Token)),
          (ahead.answers (max n 1)).map Prod.fst = before.map .ok ++ .error cause :: behind) ∧
      (∀ level : Level, SameReading (level.read ahead) (level.read plain) ∧
        (level.read ahead).2.stream = (level.read plain).2.stream) ∧
      SameReading ahead.readStatement plain.readStatement ∧
      ahead.readStatement.2.stream = plain.readStatement.2.stream := by
  intro ahead plain
  have halike : Lexer.Alike ahead plain := l.afterAll_alike calls
  have hstatement := readStatement_alike halike
  refine ⟨l.answersAmong_eq calls, fun n => ?_, fun n t => ahead.lookahead_eq_iff n (.ok t),
    fun n cause => ahead.lookahead_eq_iff n (.error cause), fun level => ?_,
    hstatement, hstatement.rest.stream_eq⟩
  · exact ⟨(ahead.lookahead_alike n).literal, ahead.peek_alike.literal⟩
  · have hread := read_alike level halike
    exact ⟨hread, hread.rest.stream_eq⟩

end Reckoner
