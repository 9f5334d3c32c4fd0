import Reckoner.Parser
import Reckoner.Proofs.Lexer.Stream

/-!
# The Shape of the Descent

What every proof about the rules of the grammar has in common: what a rule does
by the next token, and the induction along which the rules call each other.

The rules look before they consume. Since consuming after looking is consuming,
their equations can be written with `Lexer.next` throughout, and the look is left
only where nothing is consumed after it.

`read_induction` is the recursion of the rules with all that is computed taken
out. A property of the rules is proved by following the calls: an atom calls the
sum behind an opening parenthesis, a sign the signed operand behind it, a binary
level its operands and then the chain of what follows them. That these calls come
to an end is settled in the proof of the principle, by the same count that makes
the rules themselves end, and does not come up again.

## Main definitions

* `Level.isBinary`: Whether the expressions of a level are operands joined by
  operators.
* `closeGroup`: What an atom does behind the expression in its parentheses.

## Theorems

* `continueWith_eq_ok`: A tree behind a tree comes from both.
* `read_atom_of_next`, `read_sign_of_next`, `readChain_of_next`: What the rules do
  by the next token.
* `read_binary`: What the rule of a binary level does.
* `readStatement_eq`: What reading a statement does.
* `isBinary_of_joins`: Only binary levels have operators.
* `read_induction`: Induction along the calls of the rules.
* `read_preserves`: The rules preserve what looking and consuming preserve.
-/

namespace Reckoner

/-- Whether the expressions of a level are operands joined by operators. -/
def Level.isBinary : Level → Bool
  | .sum | .product | .power => true
  | .sign | .atom => false

-- The operators of a level are those of a binary one.
theorem isBinary_of_joins {level : Level} {op : Operator} (h : level.joins op = true) :
    level.isBinary = true := by
  rw [Level.joins, beq_iff_eq] at h
  rw [← h]
  cases op with
  | _ => rfl

theorem continueWith_ok (e : Expr) (l : Lexer)
    (continuation : Expr → Lexer → Except ParseError Expr × Lexer) :
    continueWith (.ok e, l) continuation = continuation e l := rfl

theorem continueWith_error (cause : ParseError) (l : Lexer)
    (continuation : Expr → Lexer → Except ParseError Expr × Lexer) :
    continueWith (.error cause, l) continuation = (.error cause, l) := rfl

-- A tree that a continuation arrives at was preceded by a tree.
theorem continueWith_eq_ok {reading : Except ParseError Expr × Lexer}
    {continuation : Expr → Lexer → Except ParseError Expr × Lexer} {e : Expr} {l : Lexer}
    (h : continueWith reading continuation = (.ok e, l)) :
    ∃ e' l', reading = (.ok e', l') ∧ continuation e' l' = (.ok e, l) := by
  rcases reading with ⟨cause | e', l'⟩
  · rw [continueWith_error] at h
    exact absurd (Prod.mk.inj h).1 (by simp only [reduceCtorEq, not_false_eq_true])
  · exact ⟨e', l', rfl, h⟩

/-- What an atom does behind the expression in its parentheses. The token that
    ought to close them is consumed even if it does not. -/
def closeGroup (body : Expr) (inner : Lexer) : Except ParseError Expr × Lexer :=
  match inner.next.1 with
  | .error cause => (.error (.lexical cause), inner.next.2)
  | .ok .closeParen => (.ok (.group body), inner.next.2)
  | .ok found => (.error (.expectedClosingParen found), inner.next.2)

theorem read_atom_of_next (l : Lexer) :
    Level.atom.read l =
      match l.next.1 with
      | .error cause => (.error (.lexical cause), l.peek.2)
      | .ok .endOfInput => (.error .unexpectedEndOfInput, l.peek.2)
      | .ok (.number literal) => (.ok (.number literal), l.next.2)
      | .ok .openParen => continueWith (Level.sum.read l.next.2) closeGroup
      | .ok found => (.error (.unexpectedToken found), l.peek.2) := by
  have hrule := read_atom l
  rw [Lexer.peek_fst, Lexer.next_peek_eq] at hrule
  exact hrule

theorem read_sign_of_next (l : Lexer) :
    Level.sign.read l =
      match l.next.1 with
      | .error cause => (.error (.lexical cause), l.peek.2)
      | .ok t =>
        match t.operatorIf? Operator.isSign with
        | none => Level.atom.read l.peek.2
        | some op =>
          continueWith (Level.sign.read l.next.2) fun operand rest =>
            (.ok (.unary op operand), rest) := by
  have hrule := read_sign l
  rw [Lexer.peek_fst, Lexer.next_peek_eq] at hrule
  exact hrule

theorem readChain_of_next (level : Level) (left : Expr) (l : Lexer) :
    level.readChain left l =
      match l.next.1 with
      | .error cause => (.error (.lexical cause), l.peek.2)
      | .ok t =>
        match t.operatorIf? level.joins with
        | none => (.ok left, l.peek.2)
        | some op =>
          continueWith (level.tighter.read l.next.2) fun right rest =>
            level.readChain (.binary op left right) rest := by
  have hrule := readChain_eq level left l
  rw [Lexer.peek_fst, Lexer.next_peek_eq] at hrule
  exact hrule

theorem read_binary {level : Level} (h : level.isBinary = true) (l : Lexer) :
    level.read l = continueWith (level.tighter.read l) level.readChain := by
  refine read_joined ?_ l
  cases level with
  | sum => exact Or.inl rfl
  | product => exact Or.inr (Or.inl rfl)
  | power => exact Or.inr (Or.inr rfl)
  | sign => exact absurd h Bool.false_ne_true
  | atom => exact absurd h Bool.false_ne_true

theorem readStatement_eq (l : Lexer) :
    l.readStatement
      = continueWith (Level.sum.read l) fun e rest => (.ok (.statement e), rest) := by
  unfold Lexer.readStatement continueWith
  rcases Level.sum.read l with ⟨cause | e, rest⟩
  · rfl
  · rfl

section Induction

variable {P Q : Level → Lexer → Prop}

/-- Induction along the calls of the rules. `P` is about the rule of a level and
    `Q` about the chain behind its first operand; each may be assumed of the
    calls that the rule or the chain makes. -/
theorem read_induction
    (atom : ∀ l : Lexer, (l.next.1 = .ok .openParen → P .sum l.next.2) → P .atom l)
    (sign : ∀ l : Lexer,
      (∀ op, l.next.1 = .ok (.operator op) → op.isSign = true → P .sign l.next.2) →
      P .atom l.peek.2 → P .sign l)
    (binary : ∀ (level : Level) (l : Lexer), level.isBinary = true → P level.tighter l →
      (∀ e rest, level.tighter.read l = (.ok e, rest) → Q level rest) → P level l)
    (chain : ∀ (level : Level) (l : Lexer),
      (∀ op, l.next.1 = .ok (.operator op) → level.joins op = true →
        P level.tighter l.next.2 ∧
          ∀ e rest, level.tighter.read l.next.2 = (.ok e, rest) → Q level rest) → Q level l) :
    (∀ level l, P level l) ∧ ∀ level l, Q level l := by
  -- One token outweighs the levels, of which there are at most five in a row.
  have hboth : ∀ n, (∀ (level : Level) (l : Lexer), 6 * l.work + (5 - level.rank) < n → P level l) ∧
      ∀ (level : Level) (l : Lexer), 6 * l.work + 5 < n → Q level l := by
    intro n
    induction n with
    | zero =>
        exact ⟨fun _ _ h => absurd h (Nat.not_lt_zero _), fun _ _ h => absurd h (Nat.not_lt_zero _)⟩
    | succ n ih =>
        rcases ih with ⟨ihP, ihQ⟩
        have hnext : ∀ {l : Lexer} {t : Token}, l.next.1 = .ok t → t ≠ .endOfInput →
            l.next.2.work < l.work := Lexer.next_work_lt
        refine ⟨fun level l hn => ?_, fun level l hn => ?_⟩
        · have hbinary : level.isBinary = true → level.tighter.rank = level.rank + 1 →
              level.rank ≤ 3 → P level l := by
            intro hlevel htighter hrank
            refine binary level l hlevel (ihP _ l (by omega)) fun e rest hread => ?_
            have hless := read_work_lt (congrArg Prod.fst hread)
            rw [hread] at hless
            dsimp only at hless
            exact ihQ level rest (by omega)
          cases level with
          | sum => exact hbinary rfl rfl (by decide)
          | product => exact hbinary rfl rfl (by decide)
          | power => exact hbinary rfl rfl (by decide)
          | sign =>
              simp only [Level.rank] at hn
              refine sign l (fun op hop _ => ?_) (ihP _ _ ?_)
              · have hless := hnext hop Token.noConfusion
                exact ihP .sign _ (by simp only [Level.rank]; omega)
              · have hle := l.peek_work_le
                simp only [Level.rank]
                omega
          | atom =>
              simp only [Level.rank] at hn
              refine atom l fun hopen => ihP .sum _ ?_
              have hless := hnext hopen Token.noConfusion
              simp only [Level.rank]
              omega
        · refine chain level l fun op hop _ => ?_
          have hless := hnext hop Token.noConfusion
          refine ⟨ihP _ _ (by omega), fun e rest hread => ?_⟩
          have hless' := read_work_lt (congrArg Prod.fst hread)
          rw [hread] at hless'
          dsimp only at hless'
          exact ihQ level rest (by omega)
  exact ⟨fun level l => (hboth _).1 level l (Nat.lt_succ_self _),
    fun level l => (hboth _).2 level l (Nat.lt_succ_self _)⟩

end Induction

-- What the reading and the continuation preserve, both of them preserve.
theorem continueWith_preserves {I : Lexer → Prop} {reading : Except ParseError Expr × Lexer}
    {continuation : Expr → Lexer → Except ParseError Expr × Lexer} (h : I reading.2)
    (hcontinue : ∀ e rest, reading = (.ok e, rest) → I rest → I (continuation e rest).2) :
    I (continueWith reading continuation).2 := by
  rcases reading with ⟨cause | e, rest⟩
  · exact h
  · exact hcontinue e rest rfl h

/-- What looking and consuming preserve, the rules preserve, since they do nothing
    else to a lexer. -/
theorem read_preserves {I : Lexer → Prop} (hpeek : ∀ l, I l → I l.peek.2)
    (hnext : ∀ l, I l → I l.next.2) (level : Level) (l : Lexer) (h : I l) :
    I (level.read l).2 := by
  refine (read_induction (P := fun level l => I l → I (level.read l).2)
    (Q := fun level l => ∀ left, I l → I (level.readChain left l).2)
    ?atom ?sign ?binary ?chain).1 level l h
  case atom =>
    intro l ih h
    rw [read_atom_of_next]
    split
    · exact hpeek l h
    · exact hpeek l h
    · exact hnext l h
    · rename_i hopen
      refine continueWith_preserves (ih hopen (hnext l h)) fun body inner _ hinner => ?_
      -- Whatever closes the group or fails to, it has been consumed.
      have hclose := hnext inner hinner
      unfold closeGroup
      split
      · exact hclose
      · exact hclose
      · exact hclose
    · exact hpeek l h
  case sign =>
    intro l ihSign ihAtom h
    rw [read_sign_of_next]
    split
    · exact hpeek l h
    · rename_i t ht
      split
      · exact ihAtom (hpeek l h)
      · rename_i op hop
        rcases Token.operatorIf?_eq_some.mp hop with ⟨rfl, hsign⟩
        exact continueWith_preserves (ihSign op ht hsign (hnext l h)) fun _ _ _ hrest => hrest
  case binary =>
    intro level l hlevel ih ihChain h
    rw [read_binary hlevel]
    exact continueWith_preserves (ih h) fun first rest hfirst => ihChain first rest hfirst first
  case chain =>
    intro level l ih left h
    rw [readChain_of_next]
    split
    · exact hpeek l h
    · rename_i t ht
      split
      · exact hpeek l h
      · rename_i op hop
        rcases Token.operatorIf?_eq_some.mp hop with ⟨rfl, hjoins⟩
        rcases ih op ht hjoins with ⟨ihOperand, ihRest⟩
        exact continueWith_preserves (ihOperand (hnext l h))
          fun right rest hright => ihRest right rest hright _

end Reckoner
