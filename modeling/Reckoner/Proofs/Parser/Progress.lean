import Reckoner.Proofs.Lexer.Indexed
import Reckoner.Proofs.Parser.Resumption

/-!
# The Progress of the Descent

That the rules come to an end, said of the rules without the bound that they carry along.

`descend` is defined together with the proof that it ends, and so its end is nothing to be stated
of it any more. `Turn.body` has no such proof. It is what one rule does, or one round of the
loop behind a first operand, and every call in it is left to a function that may fail to
answer. Handing a turn to itself again and again gives the plain recursion, and if that is cut
off at some depth it may have no answer (`Turn.within`).

What makes it end is the work that a lexer has left. Looking does not add to it, consuming
a token other than the end takes from it, and between two tokens rules go from level to level
only. So a turn is answered as soon as those turns are that are below it (`body_of_below`): every
call in it is on a lexer with less work, the calls of tighter levels apart, which are on one with
no more. In particular each round of a loop, each operand behind a sign, and each sum in
parentheses has less work before it than the turn it is called in. Work is a number, and there
are five levels, so a depth of six calls for each unit of it is always enough
(`within_of_height_lt`).

Every tree that is read takes from the work, whichever rule has read it and whatever has failed
before. So a lexer is never good for more trees than it has units of work (`trees_add_work_le`).

## Main definitions

* `IndexedLexer.work`: The work that is left, counted on the cells of a lexer.
* `Turn`: A call of a rule, or a round of its loop.
* `Turn.atomBody`, `Turn.signBody`, `Turn.joinedBody`, `Turn.roundBody`, `Turn.body`: What is done
  in a turn, with the calls left open.
* `Turn.Below`: The turns that a turn may call.
* `Turn.within`, `Entry.within`: The plain recursion, cut off at some depth.

## Theorems

* `Represents.work_eq`: The work is that of the cells.
* `after_work_le`: No call on a lexer adds to its work.
* `body_of_below`: A turn calls only turns below it.
* `height_lt_of_below`: There is no way down without an end.
* `within_of_height_lt`: The plain recursion ends, with the answers of the rules.
* `Entry.within_eq_read`: So it does for whatever is asked for.
* `Entry.work_le`, `Entry.work_lt`: What is asked for uses up the lexer.
* `trees_add_work_le`: The trees read in turn, and the work left, do not exceed the work before.
* `descent_uses_up_lexers`: All of this together.
-/

namespace Reckoner

namespace IndexedLexer

/-- What is left to hand out: the characters behind the index, and what is queued apart from the
    end of the input. -/
def work (x : IndexedLexer) : Nat :=
  x.input.length - x.position + x.queue.countP fun entry => entry.1 != .endOfInput

theorem Represents.work_eq {source : List Char} {x : IndexedLexer} {l : Lexer}
    (h : x.Represents source l) : x.work = l.work := by
  have hentry : (fun entry : Kind × Option String => entry.1 != .endOfInput) ∘ Token.entry
      = fun t => !t.isEnd := by
    funext t
    cases t with
    | _ => rfl
  rw [work, Lexer.work, h.length_unread, h.input, h.position, h.queue, List.countP_map, hentry]

end IndexedLexer

/-- No call on a lexer adds to its work. -/
theorem Lexer.after_work_le (l : Lexer) (c : Call) : (l.after c).work ≤ l.work := by
  cases c with
  | peek => exact l.peek_work_le
  | lookahead n => exact l.lookahead_work_le n
  | next => exact l.next_work_le

/-- A call in the descent: of the rule of a level, or of a round of the loop of a level, behind what
    the rounds before have read. -/
inductive Turn where
  | rule (level : Level) (l : Lexer)
  | round (level : Level) (left : Expr) (l : Lexer)

namespace Turn

/-- The lexer to read from. -/
def lexer : Turn → Lexer
  | rule _ l => l
  | round _ _ l => l

/-- What the rules read. -/
def result : Turn → Except ParseError Expr × Lexer
  | rule level l => level.read l
  | round level left l => level.readChain left l

section Body

variable (call : Turn → Option (Except ParseError Expr × Lexer))

/-- A call behind a tree. Behind an error there is none. -/
def callBehind (next : Expr → Lexer → Turn) :
    Except ParseError Expr × Lexer → Option (Except ParseError Expr × Lexer)
  | (.error cause, l) => some (.error cause, l)
  | (.ok e, l) => call (next e l)

/-- A number, or a sum in parentheses. -/
def atomBody (l : Lexer) : Option (Except ParseError Expr × Lexer) :=
  match l.peek.1 with
  | .error cause => some (.error (.lexical cause), l.peek.2)
  | .ok .endOfInput => some (.error .unexpectedEndOfInput, l.peek.2)
  | .ok (.number literal) => some (.ok (.number literal), l.peek.2.next.2)
  | .ok .openParen =>
    (call (rule .sum l.peek.2.next.2)).map fun inside => continueWith inside closeGroup
  | .ok found => some (.error (.unexpectedToken found), l.peek.2)

/-- An operand behind a sign, or an atom. -/
def signBody (l : Lexer) : Option (Except ParseError Expr × Lexer) :=
  match l.peek.1 with
  | .error cause => some (.error (.lexical cause), l.peek.2)
  | .ok t =>
    match t.operatorIf? Operator.isSign with
    | none => call (rule .atom l.peek.2)
    | some op =>
      (call (rule .sign l.peek.2.next.2)).map fun operand =>
        continueWith operand fun e rest => (.ok (.unary op e), rest)

/-- A first operand, and the first round of the loop behind it. -/
def joinedBody (level : Level) (l : Lexer) : Option (Except ParseError Expr × Lexer) :=
  (call (rule level.tighter l)).bind (callBehind call (round level))

/-- An operator and an operand behind what was read before, and the next round behind them. Where no
    operator of the level stands the loop is over. -/
def roundBody (level : Level) (left : Expr) (l : Lexer) :
    Option (Except ParseError Expr × Lexer) :=
  match l.peek.1 with
  | .error cause => some (.error (.lexical cause), l.peek.2)
  | .ok t =>
    match t.operatorIf? level.joins with
    | none => some (.ok left, l.peek.2)
    | some op =>
      (call (rule level.tighter l.peek.2.next.2)).bind
        (callBehind call fun right rest => round level (.binary op left right) rest)

/-- What is done in a turn, given the answers to the calls in it. There is no answer if one of them
    has none. -/
def body : Turn → Option (Except ParseError Expr × Lexer)
  | rule .atom l => atomBody call l
  | rule .sign l => signBody call l
  | rule level l => joinedBody call level l
  | round level left l => roundBody call level left l

end Body

/-- The turns that a turn may call: any turn with less work before it, and the rule of the next
    tighter level if there is no more. -/
inductive Below : Turn → Turn → Prop
  | less {called turn : Turn} (h : called.lexer.work < turn.lexer.work) : Below called turn
  | tighter {level : Level} {l l' : Lexer} (hlevel : level ≠ .atom) (h : l'.work ≤ l.work) :
      Below (rule level.tighter l') (rule level l)

/-- The plain recursion of the rules, cut off at some depth. -/
def within : Nat → Turn → Option (Except ParseError Expr × Lexer)
  | 0, _ => none
  | depth + 1, turn => turn.body (within depth)

/-- How deep the calls in a turn can go. Six calls for each unit of work are enough, since there are
    five levels to go through between two tokens. -/
def height : Turn → Nat
  | rule level l => 6 * l.work + (5 - level.rank)
  | round _ _ l => 6 * l.work + 5

theorem height_lt_of_below {called turn : Turn} (h : called.Below turn) :
    called.height < turn.height := by
  cases h with
  | less h =>
      have hcalled : called.height ≤ 6 * called.lexer.work + 5 := by
        cases called with
        | rule level l => simp only [height, lexer]; omega
        | round level left l => exact Nat.le_refl _
      have hturn : 6 * turn.lexer.work ≤ turn.height := by
        cases turn with
        | rule level l => exact Nat.le_add_right _ _
        | round level left l => exact Nat.le_add_right _ _
      omega
  | @tighter level l l' hlevel h =>
      cases level with
      | atom => exact absurd rfl hlevel
      | _ => simp only [height, Level.tighter, Level.rank]; omega

section Calls

variable {call : Turn → Option (Except ParseError Expr × Lexer)}

-- The rule of an atom calls that of a sum behind an opening parenthesis.
theorem atomBody_of_below (l : Lexer)
    (h : ∀ called : Turn, called.Below (rule .atom l) → call called = some called.result) :
    atomBody call l = some (Level.atom.read l) := by
  rw [read_atom, atomBody]
  rcases hpeek : l.peek.1 with cause | t
  · rfl
  · cases t with
    | openParen =>
        have hless := Lexer.next_peek_work_lt hpeek Token.noConfusion
        have hinside : call (rule .sum l.peek.2.next.2) = some (Level.sum.read l.peek.2.next.2) :=
          h _ (.less hless)
        dsimp only
        rw [hinside]
        rfl
    | _ => rfl

-- The rule of a sign calls itself behind a sign, and the rule of an atom where there is none.
theorem signBody_of_below (l : Lexer)
    (h : ∀ called : Turn, called.Below (rule .sign l) → call called = some called.result) :
    signBody call l = some (Level.sign.read l) := by
  rw [read_sign, signBody]
  rcases hpeek : l.peek.1 with cause | t
  · rfl
  · dsimp only
    rcases hop : t.operatorIf? Operator.isSign with _ | op
    · exact h (rule .atom l.peek.2) (@Below.tighter .sign l _ Level.noConfusion l.peek_work_le)
    · have hless := Lexer.next_peek_work_lt hpeek (Token.ne_endOfInput_of_operatorIf? hop)
      have hoperand : call (rule .sign l.peek.2.next.2)
          = some (Level.sign.read l.peek.2.next.2) := h _ (.less hless)
      dsimp only
      rw [hoperand]
      rfl

-- The rule of a binary level calls the tighter one for its first operand, and then a round.
theorem joinedBody_of_below {level : Level} (hlevel : level.isBinary = true) (l : Lexer)
    (h : ∀ called : Turn, called.Below (rule level l) → call called = some called.result) :
    joinedBody call level l = some (level.read l) := by
  have hfirst : call (rule level.tighter l) = some (level.tighter.read l) :=
    h _ (.tighter (ne_atom_of_isBinary hlevel) (Nat.le_refl _))
  rw [joinedBody, hfirst, read_binary hlevel, Option.bind_some]
  rcases hread : level.tighter.read l with ⟨cause | first, rest⟩
  · rfl
  · have hless := read_work_lt (congrArg Prod.fst hread)
    rw [hread] at hless
    exact h (round level first rest) (.less hless)

-- A round calls the tighter rule behind an operator, and then the next round behind that.
theorem roundBody_of_below (level : Level) (left : Expr) (l : Lexer)
    (h : ∀ called : Turn,
      called.Below (round level left l) → call called = some called.result) :
    roundBody call level left l = some (level.readChain left l) := by
  rw [readChain_eq, roundBody]
  rcases hpeek : l.peek.1 with cause | t
  · rfl
  · dsimp only
    rcases hop : t.operatorIf? level.joins with _ | op
    · rfl
    · have hless := Lexer.next_peek_work_lt hpeek (Token.ne_endOfInput_of_operatorIf? hop)
      have hoperand : call (rule level.tighter l.peek.2.next.2)
          = some (level.tighter.read l.peek.2.next.2) := h _ (.less hless)
      dsimp only
      rw [hoperand, Option.bind_some]
      rcases hread : level.tighter.read l.peek.2.next.2 with ⟨cause | right, rest⟩
      · rfl
      · have hrest := read_work_lt (congrArg Prod.fst hread)
        rw [hread] at hrest
        exact h (round level (.binary op left right) rest) (.less (Nat.lt_trans hrest hless))

/-- A turn is answered as soon as all turns below it are, so it calls no others. The answer is what
    the rules read. -/
theorem body_of_below (turn : Turn)
    (h : ∀ called : Turn, called.Below turn → call called = some called.result) :
    turn.body call = some turn.result := by
  cases turn with
  | rule level l =>
      cases level with
      | atom => exact atomBody_of_below l h
      | sign => exact signBody_of_below l h
      | _ => exact joinedBody_of_below rfl l h
  | round level left l => exact roundBody_of_below level left l h

end Calls

/-- The plain recursion ends, and it gives the answers of the rules. -/
theorem within_of_height_lt {depth : Nat} {turn : Turn} (h : turn.height < depth) :
    turn.within depth = some turn.result := by
  induction depth generalizing turn with
  | zero => exact absurd h (Nat.not_lt_zero _)
  | succ depth ih =>
      rw [within]
      refine body_of_below turn fun called hbelow => ih ?_
      have hless := height_lt_of_below hbelow
      omega

end Turn

namespace Entry

/-- What is asked for, read by the plain recursion of the rules, cut off at some depth. -/
def within (depth : Nat) : Entry → Lexer → Option (Except ParseError Expr × Lexer)
  | statement, l =>
    (Turn.within depth (.rule .sum l)).map fun reading =>
      continueWith reading fun e rest => (.ok (.statement e), rest)
  | rule level, l => Turn.within depth (.rule level l)

theorem within_eq_read {depth : Nat} (entry : Entry) {l : Lexer} (h : 6 * l.work + 6 ≤ depth) :
    entry.within depth l = some (entry.read l) := by
  have hrule : ∀ level : Level, Turn.within depth (.rule level l) = some (level.read l) := by
    intro level
    refine @Turn.within_of_height_lt depth (.rule level l) ?_
    simp only [Turn.height]
    omega
  cases entry with
  | statement =>
      rw [within, hrule, read, readStatement_eq]
      rfl
  | rule level => exact hrule level

-- Whatever is asked for, a lexer has no more to hand out than before, and less if a tree is read.
theorem work_le (entry : Entry) (l : Lexer) : (entry.read l).2.work ≤ l.work := by
  rw [entry.read_rest]
  exact read_work_le entry.level l

theorem work_lt {entry : Entry} {l : Lexer} {tree : Expr} (h : (entry.read l).1 = .ok tree) :
    (entry.read l).2.work < l.work := by
  rw [entry.read_rest]
  cases entry with
  | statement =>
      rcases hread : Level.sum.read l with ⟨cause | e, rest⟩
      · rw [read, Lexer.readStatement, hread] at h
        cases h
      · exact read_work_lt (congrArg Prod.fst hread)
  | rule level => exact read_work_lt h

end Entry

/-- The trees that are read in turn, whatever is asked for and whatever fails in between, and the
    work left behind them do not exceed the work there was. -/
theorem trees_add_work_le (entries : List Entry) (l : Lexer) :
    (l.readAll entries).1.countP (·.isOk) + (l.readAll entries).2.work ≤ l.work := by
  induction entries generalizing l with
  | nil => exact Nat.le_of_eq (Nat.zero_add _)
  | cons entry entries ih =>
      have hrest := ih (entry.read l).2
      rw [Lexer.readAll, List.countP_cons]
      rcases hread : (entry.read l).1 with cause | tree
      · have hle := entry.work_le l
        have hfailed : (Except.error cause : Except ParseError Expr).isOk = false := rfl
        rw [hfailed, if_neg Bool.false_ne_true]
        dsimp only
        omega
      · have hless := Entry.work_lt hread
        dsimp only
        split
        · omega
        · omega

/-- The descent uses up its lexers, and this is why it ends.

    * The work of a lexer is what its cells show: the characters behind the scanner, and what is
      queued apart from the end of the input.
    * No call on a lexer adds to it, and a token that is handed out takes from it unless it is the
      end. A call that fails hands out none and need not take anything. The rules never add to
      it either, and if they read a tree they take from it.
    * All calls in a turn are of turns below it. So a round of a loop, an operand behind a sign and
      a sum in parentheses have less work before them than the turn they are called in, and the only
      calls that need not have less are those of the next tighter rule.
    * The plain recursion of the rules, which knows nothing of any bound, comes to its end from
      every lexer, at a depth that grows with the work as its multiple, and gives the answers
      of the rules.
    * Asked again and again, and for whatever it is, a parser reads no more trees than there is
      work. -/
theorem descent_uses_up_lexers :
    (∀ (source : List Char) (x : IndexedLexer) (l : Lexer),
        x.Represents source l → l.work = x.work) ∧
      (∀ (l : Lexer) (c : Lexer.Call), (l.after c).work ≤ l.work) ∧
      (∀ (l : Lexer) (t : Token),
        l.next.1 = .ok t → t ≠ .endOfInput → l.next.2.work < l.work) ∧
      (∀ (entry : Entry) (l : Lexer),
        (entry.read l).2.work ≤ l.work ∧
          ∀ tree, (entry.read l).1 = .ok tree → (entry.read l).2.work < l.work) ∧
      (∀ (turn : Turn) (call : Turn → Option (Except ParseError Expr × Lexer)),
        (∀ called : Turn, called.Below turn → call called = some called.result) →
          turn.body call = some turn.result) ∧
      (∀ (entry : Entry) (l : Lexer) (depth : Nat), 6 * l.work + 6 ≤ depth →
        entry.within depth l = some (entry.read l)) ∧
      ∀ (entries : List Entry) (l : Lexer),
        (l.readAll entries).1.countP (·.isOk) ≤ l.work := by
  refine ⟨fun _ _ _ h => h.work_eq.symm, Lexer.after_work_le, fun _ _ => Lexer.next_work_lt,
    fun entry l => ⟨entry.work_le l, fun _ => Entry.work_lt⟩, fun turn _ => turn.body_of_below,
    fun entry _ _ => entry.within_eq_read, fun entries l => ?_⟩
  exact Nat.le_trans (Nat.le_add_right _ _) (trees_add_work_le entries l)

/-- It takes a token to use up a lexer, and an error is none. In front of a character that begins no
    token the lexer stays as it is. -/
theorem unrecognized_character_keeps_work :
    (Lexer.ofText "@").next = (.error (.unrecognizedCharacter '@' 0), Lexer.ofText "@") ∧
      ¬∀ l : Lexer, l.next.1 ≠ .ok .endOfInput → l.next.2.work < l.work := by
  have hfailed : (Lexer.ofText "@").next
      = (.error (.unrecognizedCharacter '@' 0), Lexer.ofText "@") := by decide +kernel
  refine ⟨hfailed, fun hall => ?_⟩
  have hless := hall (Lexer.ofText "@")
  rw [hfailed] at hless
  exact Nat.lt_irrefl _ (hless fun hend => by cases hend)

/-- A sign before a group and a number behind it, all of them queued with some ends of the input. -/
theorem filled_queue_used_up :
    let l := ((Lexer.ofText "-(1) 2").lookahead 9).2
    (Lexer.ofText "-(1) 2").work = (IndexedLexer.ofText "-(1) 2").work ∧
      l.work = 5 ∧ l.next.1 = .ok (.operator .subtract) ∧ l.next.2.work < 5 ∧
      (Entry.statement.read l).1 = .ok (.statement (.unary .subtract (.group (.number "1")))) ∧
      (Entry.statement.read l).2.work < 5 ∧
      (Turn.rule .sign l).body (fun called => some called.result) = some (Level.sign.read l) ∧
      Entry.statement.within 36 l = some (Entry.statement.read l) ∧
      (l.readAll [.statement, .statement, .statement]).1.countP (·.isOk) ≤ 5 := by
  intro l
  have hwork : l.work = 5 := by decide +kernel
  have hnext : l.next.1 = .ok (.operator .subtract) := by decide +kernel
  have htree : (Entry.statement.read l).1
      = .ok (.statement (.unary .subtract (.group (.number "1")))) := by decide +kernel
  rcases descent_uses_up_lexers with ⟨hcells, -, hconsumed, hread, hturn, hends, htrees⟩
  have hstart := hcells _ _ _ (IndexedLexer.Represents.start "-(1) 2")
  rw [← hwork]
  exact ⟨hstart, rfl, hnext, hconsumed l _ hnext Token.noConfusion, htree,
    (hread .statement l).2 _ htree, hturn (.rule .sign l) _ fun _ _ => rfl,
    hends .statement l 36 (by omega), htrees _ l⟩

end Reckoner
