import Reckoner.Proofs.Lexer.Provenance
import Reckoner.Proofs.Parser.Progress

/-!
# The Parser over the Cells of a Lexer

The rules as they can be written for a lexer with an index, and that they are the same rules.

The tokens of `IndexedLexer` are markers, so a parser over it has less in its hands than
`descend` has. When it has seen that a number is next it knows nothing of its text. It consumes the
marker, and reads the text from the cell for the number consumed last, with an empty text to fall
back on if the cell is empty. Nor can an error hold a token, and so what it holds is the name that
messages give to it. Each request for a token may fail, the ones that consume included.

`IndexedTurn` has these rules, in the form that `Turn` has those over a lexer: what is done in a
turn with the calls left open, and the plain recursion cut off at some depth. Turn by turn
they do alike (`body_alike`). They look and consume at the same points, what is consumed was
always seen before, and behind a number the cell holds the text of that number. So no error
comes from consuming what was seen, the empty text is never used, and whatever is
asked in turn, the cells give the outcomes of the rules with the tokens named
(`readAllWithin_eq`).

## Main definitions

* `NamedError`, `ParseError.named`: Errors in which a token is only named.
* `IndexedTurn`: A call of a rule, or a round of its loop, over the cells.
* `IndexedTurn.body`: What is done in a turn, with the calls left open.
* `IndexedTurn.within`, `Entry.withinCells`: The plain recursion, cut off at some depth.
* `IndexedLexer.readAllWithin`: Several requests, one after another.
* `ReadsAlike`: Two readings with the same result.
* `IndexedTurn.For`: The same turn, over the cells and over the lexer.
* `IndexedTurn.CallsAlike`: Calls that have the same results in the same turns.

## Theorems

* `literal_next_peek`: Behind a number that was seen and consumed its text is held.
* `body_alike`: Alike calls make alike turns.
* `within_alike`: The plain recursions do alike at every depth.
* `withinCells_eq`: The cells give what the rules read.
* `readAllWithin_eq`: So they do for several requests in turn.
-/

namespace Reckoner

/-- Why an expression cannot be read. A token is there by its name in messages alone. -/
inductive NamedError where
  | lexical (cause : LexError)
  | unexpectedEndOfInput
  | expectedClosingParen (found : String)
  | unexpectedToken (token : String)
  deriving DecidableEq

/-- An error with its token named. -/
def ParseError.named : ParseError → NamedError
  | lexical cause => .lexical cause
  | unexpectedEndOfInput => .unexpectedEndOfInput
  | expectedClosingParen found => .expectedClosingParen found.description
  | unexpectedToken found => .unexpectedToken found.description

namespace Kind

/-- How messages name a token of a kind. -/
def description : Kind → String
  | openParen => "\"(\""
  | closeParen => "\")\""
  | operator op => "\"" ++ op.symbol ++ "\""
  | number => "number"
  | blank => "whitespace"
  | endOfInput => "end of input"

/-- The operator of a kind, if it is one of a certain sort. -/
def operatorIf? (sort : Operator → Bool) : Kind → Option Operator
  | operator op => if sort op then some op else none
  | _ => none

end Kind

-- A marker says as much of operators as the token does.
theorem Token.operatorIf?_kind (sort : Operator → Bool) (t : Token) :
    t.kind.operatorIf? sort = t.operatorIf? sort := by
  cases t with
  | _ => rfl

/-- What a rule makes of the cells of a lexer: a tree or an error, and the cells to go on with. -/
abbrev IndexedReading :=
  Except NamedError Expr × IndexedLexer

/-- Goes on behind a token that was asked for. An error ends the reading. -/
def behindToken (answer : Except LexError Kind × IndexedLexer)
    (next : Kind → IndexedLexer → Option IndexedReading) : Option IndexedReading :=
  match answer with
  | (.error cause, x) => some (.error (.lexical cause), x)
  | (.ok kind, x) => next kind x

/-- Goes on behind a tree that was asked for. An error ends the reading. -/
def behindTree (answer : Option IndexedReading)
    (next : Expr → IndexedLexer → Option IndexedReading) : Option IndexedReading :=
  match answer with
  | none => none
  | some (.error cause, x) => some (.error cause, x)
  | some (.ok e, x) => next e x

/-- A call in the descent over the cells: of the rule of a level, or of a round of the loop of a
    level, behind what the rounds before have read. -/
inductive IndexedTurn where
  | rule (level : Level) (x : IndexedLexer)
  | round (level : Level) (left : Expr) (x : IndexedLexer)

namespace IndexedTurn

section Body

variable (call : IndexedTurn → Option IndexedReading)

/-- A sum in parentheses. -/
def groupBody (x : IndexedLexer) : Option IndexedReading :=
  behindToken x.next fun _ x =>
    behindTree (call (rule .sum x)) fun e x =>
      behindToken x.next fun kind x =>
        match kind with
        | .closeParen => some (.ok (.group e), x)
        | found => some (.error (.expectedClosingParen found.description), x)

/-- A number, or a sum in parentheses. The text of the number is what is held when its marker
    is consumed. -/
def atomBody (x : IndexedLexer) : Option IndexedReading :=
  behindToken x.peek fun kind x =>
    match kind with
    | .endOfInput => some (.error .unexpectedEndOfInput, x)
    | .openParen => groupBody call x
    | .number => behindToken x.next fun _ x => some (.ok (.number (x.literal.getD "")), x)
    | found => some (.error (.unexpectedToken found.description), x)

/-- An operand behind a sign, or an atom. -/
def signBody (x : IndexedLexer) : Option IndexedReading :=
  behindToken x.peek fun kind x =>
    match kind.operatorIf? Operator.isSign with
    | none => call (rule .atom x)
    | some op =>
      behindToken x.next fun _ x =>
        behindTree (call (rule .sign x)) fun operand x => some (.ok (.unary op operand), x)

/-- A first operand, and the first round of the loop behind it. -/
def joinedBody (level : Level) (x : IndexedLexer) : Option IndexedReading :=
  behindTree (call (rule level.tighter x)) fun first x => call (round level first x)

/-- An operator and an operand behind what was read before, and the next round behind them. Where no
    operator of the level stands the loop is over. -/
def roundBody (level : Level) (left : Expr) (x : IndexedLexer) : Option IndexedReading :=
  behindToken x.peek fun kind x =>
    match kind.operatorIf? level.joins with
    | none => some (.ok left, x)
    | some op =>
      behindToken x.next fun _ x =>
        behindTree (call (rule level.tighter x)) fun right x =>
          call (round level (.binary op left right) x)

/-- What is done in a turn, given the answers to the calls in it. -/
def body : IndexedTurn → Option IndexedReading
  | rule .atom x => atomBody call x
  | rule .sign x => signBody call x
  | rule level x => joinedBody call level x
  | round level left x => roundBody call level left x

end Body

/-- The plain recursion of the rules over the cells, cut off at some depth. -/
def within : Nat → IndexedTurn → Option IndexedReading
  | 0, _ => none
  | depth + 1, turn => turn.body (within depth)

/-- The same turn, over the cells and over the lexer. -/
inductive For (source : List Char) : IndexedTurn → Turn → Prop
  | rule {level : Level} {x : IndexedLexer} {l : Lexer} (h : x.Represents source l) :
      For source (.rule level x) (.rule level l)
  | round {level : Level} {left : Expr} {x : IndexedLexer} {l : Lexer}
      (h : x.Represents source l) : For source (.round level left x) (.round level left l)

end IndexedTurn

/-- What is asked for, read from the cells by the plain recursion, cut off at some depth. -/
def Entry.withinCells (depth : Nat) : Entry → IndexedLexer → Option IndexedReading
  | statement, x =>
    behindTree (IndexedTurn.within depth (.rule .sum x)) fun e x => some (.ok (.statement e), x)
  | rule level, x => IndexedTurn.within depth (.rule level x)

/-- Several requests, one after another, whether they succeed or fail: the outcomes, and the cells
    to go on with. -/
def IndexedLexer.readAllWithin (depth : Nat) :
    List Entry → IndexedLexer → Option (List (Except NamedError Expr) × IndexedLexer)
  | [], x => some ([], x)
  | entry :: entries, x =>
    (entry.withinCells depth x).bind fun reading =>
      (readAllWithin depth entries reading.2).map fun readings =>
        (reading.1 :: readings.1, readings.2)

/-- Two readings with the same result, the tokens in errors named. -/
structure ReadsAlike (source : List Char) (reading : IndexedReading)
    (reading' : Except ParseError Expr × Lexer) : Prop where
  outcome : reading.1 = reading'.1.mapError ParseError.named
  rest : reading.2.Represents source reading'.2

section Tokens

variable {source : List Char} {x : IndexedLexer} {l : Lexer} {t : Token}

section Answers

variable {answer : Except LexError Kind × IndexedLexer}
variable {next : Kind → IndexedLexer → Option IndexedReading}

theorem behindToken_of_ok {kind : Kind} (h : answer.1 = .ok kind) :
    behindToken answer next = next kind answer.2 := by
  rcases answer with ⟨answer, rest⟩
  subst h
  rfl

theorem behindToken_of_error {cause : LexError} (h : answer.1 = .error cause) :
    behindToken answer next = some (.error (.lexical cause), answer.2) := by
  rcases answer with ⟨answer, rest⟩
  subst h
  rfl

end Answers

/-- Behind a number that was seen and consumed its text is held. -/
theorem Lexer.literal_next_peek {literal : String} (h : l.peek.1 = .ok (.number literal)) :
    l.peek.2.next.2.literal = some literal := by
  have hheld := l.peek.2.step_literal (.call .next)
  rw [next_peek h] at hheld
  exact hheld

namespace IndexedLexer.Represents

theorem peek (h : x.Represents source l) : x.peek.2.Represents source l.peek.2 :=
  (lookahead_alike 1 h).2

theorem next (h : x.Represents source l) : x.next.2.Represents source l.next.2 :=
  (next_alike h).2

-- What is seen and consumed is of the kind of the token that the lexer hands out.
theorem peek_ok (h : x.Represents source l) (ht : l.peek.1 = .ok t) : x.peek.1 = .ok t.kind :=
  (lookahead_alike 1 h).1.trans (congrArg (Except.map Token.kind) ht)

theorem peek_error {cause : LexError} (h : x.Represents source l)
    (hcause : l.peek.1 = .error cause) : x.peek.1 = .error cause :=
  (lookahead_alike 1 h).1.trans (congrArg (Except.map Token.kind) hcause)

theorem next_peek_ok (h : x.Represents source l) (ht : l.peek.1 = .ok t) :
    x.peek.2.next.1 = .ok t.kind :=
  (next_alike h.peek).1.trans (congrArg (Except.map Token.kind) (Lexer.next_peek ht))

end IndexedLexer.Represents

end Tokens

namespace IndexedTurn

variable {source : List Char} {x : IndexedLexer} {l : Lexer}

/-- Calls that have the same results wherever the turns are the same. -/
def CallsAlike (source : List Char) (call : IndexedTurn → Option IndexedReading)
    (call' : Turn → Option (Except ParseError Expr × Lexer)) : Prop :=
  ∀ {turn : IndexedTurn} {turn' : Turn}, For source turn turn' →
    Option.Rel (ReadsAlike source) (call turn) (call' turn')

-- Behind an alike answer both readings end if it is an error, and a tree goes to what comes next.
theorem behindTree_alike {answer : Option IndexedReading}
    {answer' : Option (Except ParseError Expr × Lexer)}
    {next : Expr → IndexedLexer → Option IndexedReading}
    {next' : Except ParseError Expr × Lexer → Option (Except ParseError Expr × Lexer)}
    (h : Option.Rel (ReadsAlike source) answer answer')
    (herror : ∀ cause l, next' (.error cause, l) = some (.error cause, l))
    (hnext : ∀ e x l, x.Represents source l →
      Option.Rel (ReadsAlike source) (next e x) (next' (.ok e, l))) :
    Option.Rel (ReadsAlike source) (behindTree answer next) (answer'.bind next') := by
  cases h with
  | none => exact .none
  | @some reading reading' halike =>
      rcases reading with ⟨outcome, y⟩
      rcases reading' with ⟨outcome', l'⟩
      rcases halike with ⟨houtcome, hrest⟩
      dsimp only at houtcome hrest
      subst houtcome
      cases outcome' with
      | error cause =>
          rw [Option.bind_some, herror]
          exact .some ⟨rfl, hrest⟩
      | ok e => exact hnext e y l' hrest

section Calls

variable {call : IndexedTurn → Option IndexedReading}
variable {call' : Turn → Option (Except ParseError Expr × Lexer)}

-- Behind an opening parenthesis the closing one may be missing, and any token may be in its place.
theorem groupBody_alike (hcall : CallsAlike source call call')
    (h : x.Represents source l) (hopen : l.peek.1 = .ok .openParen) :
    Option.Rel (ReadsAlike source) (groupBody call x.peek.2)
      ((call' (.rule .sum l.peek.2.next.2)).map fun inside => continueWith inside closeGroup) := by
  rw [groupBody, behindToken_of_ok (h.next_peek_ok hopen), Option.map_eq_bind]
  refine behindTree_alike (hcall (.rule h.peek.next)) (fun _ _ => rfl) fun e x l h => ?_
  have hanswer := (IndexedLexer.next_alike h).1
  rw [Function.comp_apply, continueWith, closeGroup]
  rcases hnext : l.next.1 with cause | t
  · rw [hnext] at hanswer
    rw [behindToken_of_error hanswer]
    exact .some ⟨rfl, h.next⟩
  · rw [hnext] at hanswer
    rw [behindToken_of_ok hanswer]
    cases t with
    | _ => exact .some ⟨rfl, h.next⟩

-- The text of a number is held when its marker is consumed.
theorem atomBody_alike (hcall : CallsAlike source call call') (h : x.Represents source l) :
    Option.Rel (ReadsAlike source) (atomBody call x) (Turn.atomBody call' l) := by
  rw [atomBody, Turn.atomBody]
  rcases hpeek : l.peek.1 with cause | t
  · rw [behindToken_of_error (h.peek_error hpeek)]
    exact .some ⟨rfl, h.peek⟩
  · rw [behindToken_of_ok (h.peek_ok hpeek)]
    cases t with
    | openParen => exact groupBody_alike hcall h hpeek
    | number literal =>
        have hheld := h.peek.next.literal.trans (Lexer.literal_next_peek hpeek)
        dsimp only [Token.kind]
        rw [behindToken_of_ok (h.next_peek_ok hpeek), hheld]
        exact .some ⟨rfl, h.peek.next⟩
    | _ => exact .some ⟨rfl, h.peek⟩

theorem signBody_alike (hcall : CallsAlike source call call') (h : x.Represents source l) :
    Option.Rel (ReadsAlike source) (signBody call x) (Turn.signBody call' l) := by
  rw [signBody, Turn.signBody]
  rcases hpeek : l.peek.1 with cause | t
  · rw [behindToken_of_error (h.peek_error hpeek)]
    exact .some ⟨rfl, h.peek⟩
  · rw [behindToken_of_ok (h.peek_ok hpeek), Token.operatorIf?_kind]
    dsimp only
    rcases t.operatorIf? Operator.isSign with _ | op
    · exact hcall (.rule h.peek)
    · dsimp only
      rw [behindToken_of_ok (h.next_peek_ok hpeek), Option.map_eq_bind]
      exact behindTree_alike (hcall (.rule h.peek.next)) (fun _ _ => rfl)
        fun _ _ _ h => .some ⟨rfl, h⟩

theorem joinedBody_alike (hcall : CallsAlike source call call') (level : Level)
    (h : x.Represents source l) :
    Option.Rel (ReadsAlike source) (joinedBody call level x) (Turn.joinedBody call' level l) :=
  behindTree_alike (hcall (.rule h)) (fun _ _ => rfl) fun _ _ _ h => hcall (.round h)

theorem roundBody_alike (hcall : CallsAlike source call call') (level : Level) (left : Expr)
    (h : x.Represents source l) :
    Option.Rel (ReadsAlike source) (roundBody call level left x)
      (Turn.roundBody call' level left l) := by
  rw [roundBody, Turn.roundBody]
  rcases hpeek : l.peek.1 with cause | t
  · rw [behindToken_of_error (h.peek_error hpeek)]
    exact .some ⟨rfl, h.peek⟩
  · rw [behindToken_of_ok (h.peek_ok hpeek), Token.operatorIf?_kind]
    dsimp only
    rcases t.operatorIf? level.joins with _ | op
    · exact .some ⟨rfl, h.peek⟩
    · dsimp only
      rw [behindToken_of_ok (h.next_peek_ok hpeek)]
      exact behindTree_alike (hcall (.rule h.peek.next)) (fun _ _ => rfl)
        fun _ _ _ h => hcall (.round h)

/-- Alike calls make alike turns. -/
theorem body_alike (hcall : CallsAlike source call call') :
    CallsAlike source (body call) (Turn.body call') := by
  intro turn turn' h
  cases h with
  | @rule level x l h =>
      cases level with
      | atom => exact atomBody_alike hcall h
      | sign => exact signBody_alike hcall h
      | _ => exact joinedBody_alike hcall _ h
  | round h => exact roundBody_alike hcall _ _ h

end Calls

/-- The plain recursions do alike at every depth. -/
theorem within_alike (source : List Char) (depth : Nat) :
    CallsAlike source (within depth) (Turn.within depth) := by
  induction depth with
  | zero => exact fun _ => .none
  | succ depth ih => exact body_alike ih

end IndexedTurn

section Requests

variable {source : List Char} {x : IndexedLexer} {l : Lexer} {depth : Nat}

theorem Entry.withinCells_alike (entry : Entry) (h : x.Represents source l) :
    Option.Rel (ReadsAlike source) (entry.withinCells depth x) (entry.within depth l) := by
  cases entry with
  | statement =>
      rw [withinCells, within, Option.map_eq_bind]
      exact IndexedTurn.behindTree_alike (IndexedTurn.within_alike source depth (.rule h))
        (fun _ _ => rfl) fun _ _ _ h => .some ⟨rfl, h⟩
  | rule level => exact IndexedTurn.within_alike source depth (.rule h)

/-- The cells give what the rules read, at any depth that is enough for the work. -/
theorem Entry.withinCells_eq (entry : Entry) (h : x.Represents source l)
    (hdepth : 6 * x.work + 6 ≤ depth) :
    ∃ y, entry.withinCells depth x = some ((entry.read l).1.mapError ParseError.named, y) ∧
      y.Represents source (entry.read l).2 := by
  have halike := @withinCells_alike source x l depth entry h
  rw [entry.within_eq_read (h.work_eq ▸ hdepth)] at halike
  rcases hreading : entry.withinCells depth x with _ | ⟨outcome, y⟩
  · rw [hreading] at halike
    cases halike
  · rw [hreading] at halike
    cases halike with
    | some halike => exact ⟨y, by rw [← halike.outcome], halike.rest⟩

/-- So they do for several requests in turn, whether these succeed or fail. -/
theorem IndexedLexer.readAllWithin_eq (entries : List Entry) (h : x.Represents source l)
    (hdepth : 6 * x.work + 6 ≤ depth) :
    ∃ y, x.readAllWithin depth entries
        = some ((l.readAll entries).1.map (·.mapError ParseError.named), y) ∧
      y.Represents source (l.readAll entries).2 := by
  induction entries generalizing x l with
  | nil => exact ⟨x, rfl, h⟩
  | cons entry entries ih =>
      rcases entry.withinCells_eq h hdepth with ⟨y, hfirst, hrest⟩
      have hwork := entry.work_le l
      rw [← hrest.work_eq, ← h.work_eq] at hwork
      rcases ih hrest (by omega) with ⟨z, hreadings, hend⟩
      refine ⟨z, ?_, hend⟩
      rw [readAllWithin, hfirst, Option.bind_some, hreadings]
      rfl

end Requests

end Reckoner
