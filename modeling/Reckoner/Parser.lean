import Reckoner.Expr.Basic
import Reckoner.Lexer

/-!
# The Parser

Recursive descent over a lexer. The grammar has one rule for each level:

* a sum is products joined by `+` and `-`,
* a product is powers joined by `*`, `/` and `%`,
* a power is signed operands joined by `**` and `√`,
* a signed operand is an atom behind any number of `+` and `-`,
* an atom is a number or a sum in parentheses.

All three joined forms group to the left, powers too. A rule looks at one token
and consumes it if it fits, so it stops before the first token that cannot
continue its expression and says nothing about what follows. The first token
that fits nowhere is left unread; only a token that stands where a closing
parenthesis was needed is consumed.

A rule leaves a lexer also when it fails, and the next rule called goes on from
there.

Nothing in the shape of the rules bounds their recursion. What bounds it is the
lexer: each rule that succeeds has consumed a token, so it leaves less to hand
out than it found, and between two tokens the rules descend through the levels. `Reading`
carries that fact from the calls inside a rule to the calls behind them.
`Level.read` is the same function without it, and the equations below are how it
is reasoned about.

## Main definitions

* `Reading`: What a rule makes of a lexer, with the proof that it uses it up.
* `descend`, `descendChain`: The rules.
* `Level.read`: The rule of a level.
* `Level.readChain`: The operators and operands behind a first operand.
* `Lexer.readStatement`: Reads an expression as a whole statement.
* `parse`: Reads a text.
* `continueWith`: Goes on behind a tree, as `Reading.andThen` does, without the
  proofs.

## Theorems

* `result_andThen`, `result_descendChain`: The proofs carried along have no
  influence on what is read.
* `read_atom`, `read_sign`, `read_joined`, `readChain_eq`: What the rules do.
* `read_work_le`, `read_work_lt`: Every rule uses up the lexer.
-/

namespace Reckoner

/-- What a rule makes of a lexer that has so much work to hand out: a tree or an error, and the
    lexer to go on with. That has no more to hand out, and less if there is a tree. -/
structure Reading (work : Nat) where
  outcome : Except ParseError Expr
  rest : Lexer
  work_le : rest.work ≤ work
  work_lt : ∀ e, outcome = .ok e → rest.work < work

namespace Reading

/-- An error, and a lexer with no more to hand out. -/
def failure {n : Nat} (cause : ParseError) (rest : Lexer) (h : rest.work ≤ n) : Reading n :=
  ⟨.error cause, rest, h, fun _ he => nomatch he⟩

/-- A tree, and a lexer with less to hand out. -/
def success {n : Nat} (tree : Expr) (rest : Lexer) (h : rest.work < n) : Reading n :=
  ⟨.ok tree, rest, Nat.le_of_lt h, fun _ _ => h⟩

/-- Goes on behind a tree. An error ends the reading. -/
def andThen {m n : Nat} (reading : Reading m) (h : m ≤ n)
    (continuation : (e : Expr) → (rest : Lexer) → rest.work < m → Reading n) : Reading n :=
  match reading with
  | ⟨.error cause, rest, hle, _⟩ => .failure cause rest (Nat.le_trans hle h)
  | ⟨.ok e, rest, _, hlt⟩ => continuation e rest (hlt e rfl)

/-- The outcome of a reading and the lexer it leaves. -/
def result {n : Nat} (reading : Reading n) : Except ParseError Expr × Lexer :=
  (reading.outcome, reading.rest)

end Reading

/-- Whether an operator joins the operands of a level. -/
def Level.joins (level : Level) (op : Operator) : Bool :=
  op.level == level

mutual

/-- The rule of a level. -/
def descend (level : Level) (l : Lexer) : Reading l.work :=
  have hpeek := l.peek_work_le
  match level with
  | .atom =>
    match h : l.peek.1 with
    | .error cause => .failure (.lexical cause) l.peek.2 hpeek
    | .ok .endOfInput => .failure .unexpectedEndOfInput l.peek.2 hpeek
    | .ok (.number literal) =>
      .success (.number literal) l.peek.2.next.2 (Lexer.next_peek_work_lt h nofun)
    | .ok .openParen =>
      have hopen := Lexer.next_peek_work_lt h nofun
      (descend .sum l.peek.2.next.2).andThen (Nat.le_of_lt hopen) fun body inner hinner =>
        have hclose : inner.next.2.work < l.work :=
          Nat.lt_of_le_of_lt inner.next_work_le (Nat.lt_trans hinner hopen)
        match inner.next.1 with
        | .error cause => .failure (.lexical cause) inner.next.2 (Nat.le_of_lt hclose)
        | .ok .closeParen => .success (.group body) inner.next.2 hclose
        | .ok found => .failure (.expectedClosingParen found) inner.next.2 (Nat.le_of_lt hclose)
    | .ok found => .failure (.unexpectedToken found) l.peek.2 hpeek
  | .sign =>
    match h : l.peek.1 with
    | .error cause => .failure (.lexical cause) l.peek.2 hpeek
    | .ok t =>
      match hop : t.operatorIf? Operator.isSign with
      | some op =>
        have hnext := Lexer.next_peek_work_lt h (Token.ne_endOfInput_of_operatorIf? hop)
        (descend .sign l.peek.2.next.2).andThen (Nat.le_of_lt hnext) fun operand rest hrest =>
          .success (.unary op operand) rest (Nat.lt_trans hrest hnext)
      | none =>
        (descend .atom l.peek.2).andThen hpeek fun e rest hrest =>
          .success e rest (Nat.lt_of_lt_of_le hrest hpeek)
  | .power => (descend .sign l).andThen (Nat.le_refl _) fun e rest => descendChain .power e rest
  | .product =>
    (descend .power l).andThen (Nat.le_refl _) fun e rest => descendChain .product e rest
  | .sum => (descend .product l).andThen (Nat.le_refl _) fun e rest => descendChain .sum e rest
-- Without consuming a token a rule calls only rules of tighter levels, of which there are at most
-- four, so one token outweighs all of them.
termination_by 6 * l.work + (5 - level.rank)
decreasing_by
  all_goals simp only [Level.rank]
  all_goals omega

/-- The operators of a level and the operands behind them, joined to what stands before them. -/
def descendChain (level : Level) (left : Expr) (l : Lexer) {n : Nat} (h : l.work < n) :
    Reading n :=
  have hpeek := Nat.lt_of_le_of_lt l.peek_work_le h
  match ht : l.peek.1 with
  | .error cause => .failure (.lexical cause) l.peek.2 (Nat.le_of_lt hpeek)
  | .ok t =>
    match hop : t.operatorIf? level.joins with
    | some op =>
      have hnext := Lexer.next_peek_work_lt ht (Token.ne_endOfInput_of_operatorIf? hop)
      (descend level.tighter l.peek.2.next.2).andThen (Nat.le_of_lt (Nat.lt_trans hnext h))
        fun right rest hrest =>
          descendChain level (.binary op left right) rest
            (Nat.lt_trans (Nat.lt_trans hrest hnext) h)
    | none => .success left l.peek.2 hpeek
termination_by 6 * l.work + 5
decreasing_by
  all_goals omega

end

namespace Level

/-- The rule of a level: the tree or the error, and the lexer to go on with. -/
def read (level : Level) (l : Lexer) : Except ParseError Expr × Lexer :=
  (descend level l).result

/-- The operators of a level and the operands behind them, joined to what stands before them. -/
def readChain (level : Level) (left : Expr) (l : Lexer) : Except ParseError Expr × Lexer :=
  (descendChain level left l (Nat.lt_succ_self l.work)).result

end Level

/-- Reads one expression as a whole statement. What follows it is not looked at. -/
def Lexer.readStatement (l : Lexer) : Except ParseError Expr × Lexer :=
  match Level.sum.read l with
  | (.ok e, l') => (.ok (.statement e), l')
  | (.error cause, l') => (.error cause, l')

/-- The expression at the front of a text. -/
def parse (text : String) : Except ParseError Expr :=
  (Lexer.ofText text).readStatement.1

/-- What follows a tree, or an error if there is none. -/
def continueWith (reading : Except ParseError Expr × Lexer)
    (continuation : Expr → Lexer → Except ParseError Expr × Lexer) :
    Except ParseError Expr × Lexer :=
  match reading with
  | (.error cause, l) => (.error cause, l)
  | (.ok e, l) => continuation e l

theorem Reading.result_andThen {m n : Nat} (reading : Reading m) (h : m ≤ n)
    (continuation : (e : Expr) → (rest : Lexer) → rest.work < m → Reading n)
    (plain : Expr → Lexer → Except ParseError Expr × Lexer)
    (hplain : ∀ e rest hrest, (continuation e rest hrest).result = plain e rest) :
    (reading.andThen h continuation).result = continueWith reading.result plain := by
  rcases reading with ⟨outcome, rest, hle, hlt⟩
  cases outcome with
  | error cause => rfl
  | ok e => exact hplain e rest _

/-- The bound that a chain carries along has no influence on what is read. -/
theorem result_descendChain (level : Level) (left : Expr) (l : Lexer) {m n : Nat}
    (hm : l.work < m) (hn : l.work < n) :
    (descendChain level left l hm).result = (descendChain level left l hn).result := by
  induction hw : l.work using Nat.strongRecOn generalizing left l m n with
  | ind w ih =>
    rw [descendChain.eq_def level left l hm, descendChain.eq_def level left l hn]
    dsimp only
    split
    · rfl
    · rename_i t ht
      split
      · rename_i op hop
        have hnext := Lexer.next_peek_work_lt ht (Token.ne_endOfInput_of_operatorIf? hop)
        rcases descend level.tighter l.peek.2.next.2 with ⟨outcome, rest, hle, hlt⟩
        cases outcome with
        | error cause => rfl
        | ok right =>
          have hrest := hlt right rfl
          exact ih rest.work (by omega) _ rest _ _ rfl
      · rfl

/-- What a chain does: as long as the next token joins the operands of the level, it reads an
    operand behind it. -/
theorem readChain_eq (level : Level) (left : Expr) (l : Lexer) :
    level.readChain left l =
      match l.peek.1 with
      | .error cause => (.error (.lexical cause), l.peek.2)
      | .ok t =>
        match t.operatorIf? level.joins with
        | none => (.ok left, l.peek.2)
        | some op =>
          continueWith (level.tighter.read l.peek.2.next.2) fun right rest =>
            level.readChain (.binary op left right) rest := by
  unfold Level.readChain Level.read
  rw [descendChain.eq_def]
  dsimp only
  split
  · rename_i cause hpeek
    simp only [hpeek]
    rfl
  · rename_i t hpeek
    simp only [hpeek]
    split
    · rename_i op hop
      simp only [hop]
      exact Reading.result_andThen _ _ _ _ fun right rest _ => result_descendChain _ _ _ _ _
    · rename_i hop
      simp only [hop]
      rfl

/-- What the rule of an atom does. -/
theorem read_atom (l : Lexer) :
    Level.atom.read l =
      match l.peek.1 with
      | .error cause => (.error (.lexical cause), l.peek.2)
      | .ok .endOfInput => (.error .unexpectedEndOfInput, l.peek.2)
      | .ok (.number literal) => (.ok (.number literal), l.peek.2.next.2)
      | .ok .openParen =>
        continueWith (Level.sum.read l.peek.2.next.2) fun body inner =>
          match inner.next.1 with
          | .error cause => (.error (.lexical cause), inner.next.2)
          | .ok .closeParen => (.ok (.group body), inner.next.2)
          | .ok found => (.error (.expectedClosingParen found), inner.next.2)
      | .ok found => (.error (.unexpectedToken found), l.peek.2) := by
  unfold Level.read
  rw [descend.eq_def]
  dsimp only
  split
  · rename_i cause hpeek
    simp only [hpeek]
    rfl
  · rename_i hpeek
    simp only [hpeek]
    rfl
  · rename_i literal hpeek
    simp only [hpeek]
    rfl
  · rename_i hpeek
    simp only [hpeek]
    refine Reading.result_andThen _ _ _ _ fun body inner _ => ?_
    split
    all_goals rfl
  · rename_i found hend hnumber hopen hpeek
    simp only [hpeek]
    cases found with
    | endOfInput => exact absurd rfl hend
    | number literal => exact absurd rfl (hnumber literal)
    | openParen => exact absurd rfl hopen
    | _ => rfl

/-- What the rule of a signed operand does. -/
theorem read_sign (l : Lexer) :
    Level.sign.read l =
      match l.peek.1 with
      | .error cause => (.error (.lexical cause), l.peek.2)
      | .ok t =>
        match t.operatorIf? Operator.isSign with
        | none => Level.atom.read l.peek.2
        | some op =>
          continueWith (Level.sign.read l.peek.2.next.2) fun operand rest =>
            (.ok (.unary op operand), rest) := by
  unfold Level.read
  rw [descend.eq_def]
  dsimp only
  split
  · rename_i cause hpeek
    simp only [hpeek]
    rfl
  · rename_i t hpeek
    simp only [hpeek]
    split
    · rename_i op hop
      simp only [hop]
      exact Reading.result_andThen _ _ _ _ fun operand rest _ => rfl
    · rename_i hop
      simp only [hop]
      rw [Reading.result_andThen _ _ _ (fun e rest => (.ok e, rest)) fun e rest _ => rfl]
      rcases (descend .atom l.peek.2).result with ⟨cause | e, rest⟩
      · rfl
      · rfl

/-- What the rule of a joined level does: an operand of the tighter level and the chain behind
    it. -/
theorem read_joined {level : Level} (h : level = .sum ∨ level = .product ∨ level = .power)
    (l : Lexer) :
    level.read l = continueWith (level.tighter.read l) level.readChain := by
  unfold Level.read
  rcases h with h | h | h <;> subst h
  all_goals
    rw [descend.eq_def]
    exact Reading.result_andThen _ _ _ _ fun e rest _ => result_descendChain _ _ _ _ _

theorem read_work_le (level : Level) (l : Lexer) : (level.read l).2.work ≤ l.work :=
  (descend level l).work_le

theorem read_work_lt {level : Level} {l : Lexer} {e : Expr} (h : (level.read l).1 = .ok e) :
    (level.read l).2.work < l.work :=
  (descend level l).work_lt e h

end Reckoner
