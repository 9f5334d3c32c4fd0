import Mathlib.Control.Monad.Basic
import Reckoner.Proofs.Lexer.Lookahead
import Reckoner.Proofs.Parser.Complete
import Reckoner.Proofs.Parser.Scan

/-!
# Going on After an Error

A parser can be asked again after it has failed, by the rule that has failed or by
another one, and it goes on from where the failed rule has left the lexer. What it
then does depends on how the rule has failed, and there are two ways for that
(`FailsAt`).

Nearly all errors come from a look. An operand is due, the rule of an atom looks at the
next token, and it cannot begin with that. The token stays where it is, and so does
everything else: asked again, every rule comes to the same token and looks at it for
the same reason, so it gives the same answer and leaves the same lexer
(`FailsAt.sticks`). The one token for which this is wrong is a sign. It cannot begin
an atom, but it can begin an operand, so only the rule of atoms refuses it, and only
if it is called directly.

The other way is a parenthesis that is not closed. The token in the place of the closing
one has been consumed by then, and the next rule begins behind it.

No token gets lost in any of this. A rule does nothing to a lexer but look and consume
(`read_calls`), looking cannot be seen in the stream, and consuming drops the token
that is handed out. So whatever is asked, and whether it succeeds or fails, the tokens
consumed and the tokens left are the stream that was there before.

## Main definitions

* `Entry`: The ways to ask for an expression.
* `Lexer.readAll`: Several requests, one after another.
* `Lexer.consumedTo`, `Lexer.consumedInTurn`: The tokens consumed by one request and
  by several.
* `handedOut`: The tokens among some answers.
* `complaint?`: What is wrong with a token where an operand is due.
* `FailsAt`: How a rule fails.
* `Lexer.Sticks`: Whatever is asked, the answer is the same error, and nothing changes.
* `Entry.KeepsPlace`: What the lexer left by a request has to do with the outcome.

## Theorems

* `peek_peek`: A second look changes nothing.
* `stream_afterAll`: The tokens handed out and the tokens left are the stream.
* `read_calls`: The rules look and consume.
* `read_of_complaint`: At a token that begins no operand every rule fails.
* `read_fails`: The ways in which the rules fail.
* `FailsAt.sticks`: An error that comes from a look comes up again.
* `stream_readAll`: No token is skipped and none is read twice.
* `place_kept_across_errors`: A parser keeps its place across errors.
-/

namespace Reckoner

/-- The ways to ask a parser for an expression: as a whole statement, or by the rule of a
    level. -/
inductive Entry where
  | statement
  | rule (level : Level)
  deriving DecidableEq

namespace Entry

/-- What is asked for, read from a lexer. -/
def read : Entry → Lexer → Except ParseError Expr × Lexer
  | statement, l => l.readStatement
  | rule level, l => level.read l

/-- The level of what is asked for. -/
def level : Entry → Level
  | statement => .sum
  | rule level => level

end Entry

namespace Lexer

/-- Several requests, one after another, whether they succeed or fail: the outcomes, and the
    lexer to go on with. -/
def readAll : List Entry → Lexer → List (Except ParseError Expr) × Lexer
  | [], l => ([], l)
  | entry :: entries, l =>
    ((entry.read l).1 :: (readAll entries (entry.read l).2).1, (readAll entries (entry.read l).2).2)

/-- The tokens that a lexer has to hand out and a later one has no more. -/
def consumedTo (l rest : Lexer) : List Token :=
  l.stream.tokens.take (l.stream.tokens.length - rest.stream.tokens.length)

/-- The tokens that each of several requests consumes. -/
def consumedInTurn : List Entry → Lexer → List (List Token)
  | [], _ => []
  | entry :: entries, l => l.consumedTo (entry.read l).2 :: consumedInTurn entries (entry.read l).2

end Lexer

/-- The tokens among some answers. The end of the input is not one that could be consumed. -/
def handedOut (answers : List Answer) : List Token :=
  answers.filterMap fun answer => match answer.1 with
    | .ok t => if t.isEnd then none else some t
    | .error _ => none

/-- What is wrong with the next answer where an operand is due. Nothing is wrong with a number
    or an opening parenthesis. -/
def complaint? : Except LexError Token → Option ParseError
  | .error cause => some (.lexical cause)
  | .ok .endOfInput => some .unexpectedEndOfInput
  | .ok (.number _) => none
  | .ok .openParen => none
  | .ok found => some (.unexpectedToken found)

namespace Lexer

variable {l rest : Lexer}

/-- A second look changes nothing. -/
theorem peek_peek (l : Lexer) : l.peek.2.peek.2 = l.peek.2 := by
  rcases l.next_cases with ⟨t, queue, hq, -⟩ | ⟨t, l', hq, hlex, -, -⟩ |
    ⟨cause, l', hq, hlex, hqueue, -⟩
  · rw [peek_of_queue hq, peek_of_queue hq]
  · rw [peek_of_queue_nil hq, hlex, peek_of_queue rfl]
  · rw [peek_of_queue_nil hq, hlex, peek_of_queue_nil hqueue, lexSolid_again hlex]

-- What stands between two lexers is told from the streams.
theorem consumedTo_eq {w : List Token} (h : l.stream = w ++ rest.stream) :
    l.consumedTo rest = w := by
  rw [consumedTo, h, TokenStream.tokens_append, List.length_append, Nat.add_sub_cancel,
    List.take_left]

theorem handedOut_cons (answer : Answer) (answers : List Answer) :
    handedOut (answer :: answers) = handedOut [answer] ++ handedOut answers :=
  List.filterMap_append (l := [answer])

-- One token that is consumed.
theorem stream_handedOut_next (h : l.EndIsLast) :
    l.stream = handedOut [(l.next.1, l.next.2.literal)] ++ l.next.2.stream := by
  rw [stream_next h]
  rcases hnext : l.next.1 with cause | t
  · rw [stream_of_error hnext]
    rfl
  · by_cases ht : t = .endOfInput
    · rw [ht] at hnext
      rw [stream_of_end hnext, ht]
      rfl
    · have hhanded : handedOut [(.ok t, l.next.2.literal)] = [t] := by
        cases t with
        | endOfInput => exact absurd rfl ht
        | _ => rfl
      rw [hhanded, stream_of_token hnext (Token.isEnd_eq_false ht)]
      rfl

/-- The tokens handed out by some calls and the tokens left by them are the stream. -/
theorem stream_afterAll (calls : List Call) (h : l.EndIsLast) :
    l.stream = handedOut (l.answersAmong calls) ++ (l.afterAll calls).stream := by
  induction calls generalizing l with
  | nil => rfl
  | cons c calls ih =>
      have hbehind := ih (after_endIsLast c h)
      by_cases hc : c = .next
      · subst hc
        rw [answersAmong, if_pos rfl, handedOut_cons, TokenStream.append_append]
        rw [stream_handedOut_next h]
        exact congrArg _ hbehind
      · rw [answersAmong, if_neg hc, ← (l.after_alike hc).stream_eq]
        exact hbehind

end Lexer

/-- A rule does nothing to a lexer but look and consume. -/
theorem read_calls (level : Level) (l : Lexer) :
    ∃ calls, (level.read l).2 = l.afterAll calls := by
  refine read_preserves (I := fun l' => ∃ calls, l' = l.afterAll calls) ?_ ?_ level l ⟨[], rfl⟩
  · rintro l' ⟨calls, rfl⟩
    exact ⟨calls ++ [.peek], by rw [Lexer.afterAll, Lexer.afterAll, List.foldl_append]; rfl⟩
  · rintro l' ⟨calls, rfl⟩
    exact ⟨calls ++ [.next], by rw [Lexer.afterAll, Lexer.afterAll, List.foldl_append]; rfl⟩

/-- How a rule fails, by the error and the lexer that it leaves. -/
inductive FailsAt (level : Level) (l : Lexer) : ParseError → Lexer → Prop
  /-- The next token has been looked at and cannot stand where it stands. It is left where it is.
      That token can be a sign for the rule of atoms only, which has done nothing else. -/
  | looking {cause : ParseError} {rest : Lexer} (hlooked : rest.peek.2 = rest)
      (hcause : complaint? rest.next.1 = some cause)
      (hsign : ∀ op, cause = .unexpectedToken (.operator op) → op.isSign = true →
        level = .atom ∧ rest = l.peek.2) :
      FailsAt level l cause rest
  /-- The token behind an open parenthesis and a sum does not close it, and has been consumed. -/
  | closing (outside : List Token) {w : List Token} {body : Expr} {inner : Lexer} {found : Token}
      (hwhole : l.stream = (outside ++ .openParen :: w) ++ inner.stream)
      (hderives : Derives .sum w body) (hfound : inner.next.1 = .ok found)
      (hunclosed : found ≠ .closeParen) (hreach : inner.Reachable) :
      FailsAt level l (.expectedClosingParen found) inner.next.2

-- The token that is not expected is the one that was looked at.
theorem next_of_unexpectedToken {answer : Except LexError Token} {t : Token}
    (h : complaint? answer = some (.unexpectedToken t)) : answer = .ok t := by
  rcases answer with cause | t'
  · cases h
  · cases t' with
    | endOfInput => cases h
    | number literal => cases h
    | openParen => cases h
    | _ => rw [ParseError.unexpectedToken.inj (Option.some.inj h)]

/-- At a token that begins no atom the rule of atoms fails. -/
theorem read_atom_of_complaint {l : Lexer} {cause : ParseError}
    (hcause : complaint? l.next.1 = some cause) :
    Level.atom.read l = (.error cause, l.peek.2) := by
  rw [read_atom_of_next]
  rcases hnext : l.next.1 with cause' | t
  · rw [hnext] at hcause
    rw [← Option.some.inj hcause]
  · rw [hnext] at hcause
    cases t with
    | number literal => cases hcause
    | openParen => cases hcause
    | _ => rw [← Option.some.inj hcause]

/-- At a token that begins no operand every rule fails. -/
theorem read_of_complaint {l : Lexer} {cause : ParseError}
    (hcause : complaint? l.next.1 = some cause)
    (hsign : ∀ op, l.next.1 = .ok (.operator op) → op.isSign = false) (level : Level) :
    level.read l = (.error cause, l.peek.2) := by
  have hsigned : Level.sign.read l = (.error cause, l.peek.2) := by
    rw [read_sign_of_next]
    rcases hnext : l.next.1 with cause' | t
    · rw [hnext] at hcause
      rw [← Option.some.inj hcause]
    · have hnone : t.operatorIf? Operator.isSign = none := by
        rw [Option.eq_none_iff_forall_ne_some]
        intro op hop
        rcases Token.operatorIf?_eq_some.mp hop with ⟨rfl, htrue⟩
        rw [hsign op hnext] at htrue
        exact Bool.false_ne_true htrue
      rw [← l.next_peek_eq] at hcause
      simp only [hnone]
      rw [read_atom_of_complaint hcause, Lexer.peek_peek]
  have hpower : Level.power.read l = (.error cause, l.peek.2) := by
    rw [read_binary rfl, Level.tighter, hsigned, continueWith_error]
  have hproduct : Level.product.read l = (.error cause, l.peek.2) := by
    rw [read_binary rfl, Level.tighter, hpower, continueWith_error]
  cases level with
  | atom => exact read_atom_of_complaint hcause
  | sign => exact hsigned
  | power => exact hpower
  | product => exact hproduct
  | sum => rw [read_binary rfl, Level.tighter, hproduct, continueWith_error]

section Failing

variable {level level' : Level} {l l' rest : Lexer} {cause : ParseError}

-- A rule fails as the rule that it has called behind some tokens. If that is the rule of
-- atoms, no sign stands there.
theorem FailsAt.behind (h : FailsAt level' l' cause rest) (w : List Token)
    (hstream : l.stream = w ++ l'.stream)
    (hsign : level' = .atom → ∀ op, l'.next.1 = .ok (.operator op) → op.isSign = false) :
    FailsAt level l cause rest := by
  cases h with
  | looking hlooked hcause hatom =>
      refine .looking hlooked hcause fun op hop htrue => ?_
      rcases hatom op hop htrue with ⟨hlevel, hrest⟩
      rw [hop] at hcause
      have hnext := next_of_unexpectedToken hcause
      rw [hrest, Lexer.next_peek_eq] at hnext
      rw [hsign hlevel op hnext] at htrue
      exact absurd htrue Bool.false_ne_true
  | @closing outside v body inner found hwhole hderives hfound hunclosed hreach =>
      refine .closing (w ++ outside) ?_ hderives hfound hunclosed hreach
      rw [hstream, hwhole, List.append_assoc w, TokenStream.append_append w]

/-- A rule fails only in these ways. -/
def Fails (level : Level) (l : Lexer) : Prop :=
  l.Reachable → ∀ cause rest, level.read l = (.error cause, rest) → FailsAt level l cause rest

-- An error behind something that was read comes from there or from what stands behind it.
theorem continueWith_eq_error {reading : Except ParseError Expr × Lexer}
    {continuation : Expr → Lexer → Except ParseError Expr × Lexer}
    (h : continueWith reading continuation = (.error cause, l)) :
    reading = (.error cause, l) ∨
      ∃ e l', reading = (.ok e, l') ∧ continuation e l' = (.error cause, l) := by
  rcases reading with ⟨cause' | e, l'⟩
  · exact Or.inl h
  · exact Or.inr ⟨e, l', rfl, h⟩

/-- The chain of a level fails only in these ways. -/
def ChainFails (level : Level) (l : Lexer) : Prop :=
  l.Reachable → ∀ left cause rest,
    level.readChain left l = (.error cause, rest) → FailsAt level l cause rest

-- A binary level is not that of atoms.
theorem ne_atom_of_isBinary (h : level.isBinary = true) : level ≠ .atom := by
  rintro rfl
  exact Bool.false_ne_true h

-- Behind the sum in a pair of parentheses. The sum has looked at what stands there, so that
-- is a token.
theorem closeGroup_fails {w : List Token} {body : Expr} {inner : Lexer}
    (hwhole : l.stream = (.openParen :: w) ++ inner.stream) (hderives : Derives .sum w body)
    (hstops : Level.sum.StopsBefore inner.stream) (hreach : inner.Reachable)
    (h : closeGroup body inner = (.error cause, rest)) : FailsAt level l cause rest := by
  rcases head_of_sum_stops hstops with ⟨found, hfound, -⟩
  rw [Lexer.head_stream] at hfound
  have hclosing : found ≠ .closeParen →
      FailsAt level l (.expectedClosingParen found) inner.next.2 :=
    fun hunclosed => .closing [] hwhole hderives hfound hunclosed hreach
  rw [closeGroup, hfound] at h
  cases found with
  | closeParen => cases h
  | _ =>
      cases h
      exact hclosing Token.noConfusion

-- An atom. What is no atom by its first token is refused at a look, a sign too.
theorem atom_fails (l : Lexer) (ih : l.next.1 = .ok .openParen → Fails .sum l.next.2) :
    Fails .atom l := by
  intro hreach cause rest hread
  rcases hcomplaint : complaint? l.next.1 with _ | cause'
  · rw [read_atom_of_next] at hread
    rcases hnext : l.next.1 with cause' | t
    · rw [hnext] at hcomplaint
      cases hcomplaint
    · rw [hnext] at hcomplaint hread
      cases t with
      | number literal => cases hread
      | openParen =>
          have hinside : l.next.2.Reachable := hreach.step (.call .next)
          have hstream := Lexer.stream_of_token hnext rfl
          rcases continueWith_eq_error hread with hsum | ⟨body, inner, hsum, hclose⟩
          · exact (ih hnext hinside _ _ hsum).behind [.openParen] hstream fun hatom => nomatch hatom
          · rcases read_sound .sum l.next.2 body inner hsum with ⟨w, hwhole, hderives, hstops⟩
            rw [hwhole] at hstream
            exact closeGroup_fails hstream hderives hstops (hinside.of_read hsum) hclose
      | _ => cases hcomplaint
  · rw [read_atom_of_complaint hcomplaint] at hread
    rw [← l.next_peek_eq] at hcomplaint
    cases hread
    exact .looking l.peek_peek hcomplaint fun _ _ _ => ⟨rfl, rfl⟩

-- A signed operand. It comes to an atom only where no sign stands.
theorem sign_fails (l : Lexer)
    (ihSign : ∀ op, l.next.1 = .ok (.operator op) → op.isSign = true → Fails .sign l.next.2)
    (ihAtom : Fails .atom l.peek.2) : Fails .sign l := by
  intro hreach cause rest hread
  rw [read_sign_of_next] at hread
  rcases hnext : l.next.1 with cause' | t
  · rw [hnext] at hread
    cases hread
    exact .looking l.peek_peek (by rw [l.next_peek_eq, hnext]; rfl) nofun
  · simp only [hnext] at hread
    rcases hop : t.operatorIf? Operator.isSign with _ | op
    · simp only [hop] at hread
      refine (ihAtom (hreach.step (.call .peek)) _ _ hread).behind [] l.stream_peek.symm
        fun _ op hsign => ?_
      rw [l.next_peek_eq, hnext, Except.ok.injEq] at hsign
      rw [Bool.eq_false_iff]
      intro htrue
      rw [Token.operatorIf?_eq_some.mpr ⟨hsign, htrue⟩] at hop
      cases hop
    · simp only [hop] at hread
      rcases Token.operatorIf?_eq_some.mp hop with ⟨rfl, hsign⟩
      rcases continueWith_eq_error hread with hoperand | ⟨_, _, -, hbehind⟩
      · exact (ihSign op hnext hsign (hreach.step (.call .next)) _ _ hoperand).behind
          [.operator op] (Lexer.stream_of_token hnext rfl) fun hatom => nomatch hatom
      · cases hbehind

theorem binary_fails (level : Level) (l : Lexer) (hlevel : level.isBinary = true)
    (ih : Fails level.tighter l)
    (ihChain : ∀ first rest, level.tighter.read l = (.ok first, rest) → ChainFails level rest) :
    Fails level l := by
  intro hreach cause rest hread
  rw [read_binary hlevel] at hread
  rcases continueWith_eq_error hread with hfirst | ⟨first, behind, hfirst, hchain⟩
  · exact (ih hreach _ _ hfirst).behind [] rfl fun hatom => absurd hatom (tighter_ne_atom hlevel)
  · rcases read_sound level.tighter l first behind hfirst with ⟨w, hwhole, -, -⟩
    exact (ihChain first behind hfirst (hreach.of_read hfirst) _ _ _ hchain).behind w hwhole
      fun hatom => absurd hatom (ne_atom_of_isBinary hlevel)

theorem chain_fails (level : Level) (l : Lexer)
    (ih : ∀ op, l.next.1 = .ok (.operator op) → level.joins op = true →
      Fails level.tighter l.next.2 ∧
        ∀ right rest, level.tighter.read l.next.2 = (.ok right, rest) → ChainFails level rest) :
    ChainFails level l := by
  intro hreach left cause rest hread
  rw [readChain_of_next] at hread
  rcases hnext : l.next.1 with cause' | t
  · rw [hnext] at hread
    cases hread
    exact .looking l.peek_peek (by rw [l.next_peek_eq, hnext]; rfl) nofun
  · simp only [hnext] at hread
    rcases hop : t.operatorIf? level.joins with _ | op
    · simp only [hop] at hread
      cases hread
    · simp only [hop] at hread
      rcases Token.operatorIf?_eq_some.mp hop with ⟨rfl, hjoins⟩
      rcases ih op hnext hjoins with ⟨ihOperand, ihRest⟩
      have hlevel := isBinary_of_joins hjoins
      have hoperand : l.next.2.Reachable := hreach.step (.call .next)
      have hstream := Lexer.stream_of_token hnext rfl
      rcases continueWith_eq_error hread with hright | ⟨right, behind, hright, hchain⟩
      · exact (ihOperand hoperand _ _ hright).behind [.operator op] hstream
          fun hatom => absurd hatom (tighter_ne_atom hlevel)
      · rcases read_sound level.tighter l.next.2 right behind hright with ⟨w, hwhole, -, -⟩
        rw [hwhole] at hstream
        exact (ihRest right behind hright (hoperand.of_read hright) _ _ _ hchain).behind
          (.operator op :: w) hstream fun hatom => absurd hatom (ne_atom_of_isBinary hlevel)

/-- The rules fail only in these ways. -/
theorem read_fails (level : Level) (l : Lexer) : Fails level l :=
  (read_induction atom_fails sign_fails binary_fails chain_fails).1 level l

end Failing

namespace Entry

variable {entry : Entry} {l rest : Lexer}

-- A statement leaves what a sum leaves, and fails as the sum fails.
theorem read_rest (entry : Entry) (l : Lexer) : (entry.read l).2 = (entry.level.read l).2 := by
  cases entry with
  | statement =>
      rw [read, readStatement_eq, level]
      rcases Level.sum.read l with ⟨cause | e, rest⟩
      · rfl
      · rfl
  | rule level => rfl

theorem read_eq_error {cause : ParseError} :
    entry.read l = (.error cause, rest) ↔ entry.level.read l = (.error cause, rest) := by
  cases entry with
  | statement =>
      rw [read, readStatement_eq, level]
      rcases Level.sum.read l with ⟨cause' | e, rest'⟩
      · exact Iff.rfl
      · constructor
        · intro h
          cases h
        · intro h
          cases h
  | rule level => exact Iff.rfl

/-- What is read as a tree is the tokens of the tree. -/
theorem stream_of_read_ok {tree : Expr} (h : entry.read l = (.ok tree, rest)) :
    l.stream = tree.tokens ++ rest.stream := by
  have hrule : ∀ {level : Level} {e : Expr}, level.read l = (.ok e, rest) →
      l.stream = e.tokens ++ rest.stream := by
    intro level e hread
    rcases read_sound level l e rest hread with ⟨w, hwhole, hderives, -⟩
    rw [hderives.tokens_eq, hwhole]
  cases entry with
  | statement =>
      rw [read, readStatement_eq] at h
      rcases continueWith_eq_ok h with ⟨e, rest', hsum, hstatement⟩
      cases hstatement
      rw [hrule hsum, Expr.tokens]
  | rule level => exact hrule h

end Entry

namespace Lexer

variable {l rest : Lexer} {cause : ParseError}

/-- Whatever is asked, each answer is the same error, and nothing changes. -/
def Sticks (cause : ParseError) (l : Lexer) : Prop :=
  ∀ later : List Entry, readAll later l = (later.map fun _ => .error cause, l)

-- It is enough that this is so for each request by itself.
theorem sticks_of_read (h : ∀ level : Level, level.read l = (.error cause, l)) :
    l.Sticks cause := by
  intro later
  induction later with
  | nil => rfl
  | cons entry later ih => rw [readAll, Entry.read_eq_error.mpr (h entry.level), ih, List.map_cons]

/-- The tokens consumed by a request are handed out by the lexer, one after another and no
    others. -/
theorem exists_calls (entry : Entry) (h : l.Reachable) :
    ∃ calls, (entry.read l).2 = l.afterAll calls ∧
      l.consumedTo (entry.read l).2 = handedOut (l.answersAmong calls) := by
  rcases read_calls entry.level l with ⟨calls, hcalls⟩
  rw [← entry.read_rest] at hcalls
  refine ⟨calls, hcalls, consumedTo_eq ?_⟩
  rw [hcalls]
  exact stream_afterAll calls h.endIsLast

/-- What a request leaves is what stands behind the tokens that it consumes. -/
theorem stream_read (entry : Entry) (h : l.Reachable) :
    l.stream = l.consumedTo (entry.read l).2 ++ (entry.read l).2.stream := by
  rcases exists_calls entry h with ⟨calls, hrest, hconsumed⟩
  rw [hconsumed, hrest]
  exact stream_afterAll calls h.endIsLast

theorem Reachable.read_entry (entry : Entry) (h : l.Reachable) : (entry.read l).2.Reachable := by
  rw [entry.read_rest]
  exact h.read entry.level

theorem Reachable.readAll (entries : List Entry) (h : l.Reachable) :
    (readAll entries l).2.Reachable := by
  induction entries generalizing l with
  | nil => exact h
  | cons entry entries ih => exact ih (h.read_entry entry)

/-- No token is skipped by any requests and none is read twice. -/
theorem stream_readAll (entries : List Entry) (h : l.Reachable) :
    l.stream = (consumedInTurn entries l).flatten ++ (readAll entries l).2.stream := by
  induction entries generalizing l with
  | nil => rfl
  | cons entry entries ih =>
      rw [consumedInTurn, List.flatten_cons, TokenStream.append_append]
      exact (stream_read entry h).trans (congrArg _ (ih (h.read_entry entry)))

end Lexer

/-- An error that comes from a look comes up again, whatever is asked for, and nothing changes. The
    one exception is a sign. -/
theorem FailsAt.sticks {level : Level} {l rest : Lexer} {cause : ParseError}
    (h : FailsAt level l cause rest) (hclosing : ∀ found, cause ≠ .expectedClosingParen found)
    (hsign : ∀ op, cause = .unexpectedToken (.operator op) → op.isSign = false) :
    rest.Sticks cause := by
  cases h with
  | looking hlooked hcause _ =>
      refine Lexer.sticks_of_read fun level => ?_
      have hread := read_of_complaint hcause (fun op hop => hsign op ?_) level
      · rw [hlooked] at hread
        exact hread
      · rw [hop] at hcause
        exact (Option.some.inj hcause).symm
  | @closing _ _ _ _ found _ _ _ _ _ => exact absurd rfl (hclosing found)

/-- What the lexer left by a request has to do with the outcome. -/
def Entry.KeepsPlace (entry : Entry) (l rest : Lexer) : Except ParseError Expr → Prop
  | .ok tree => l.consumedTo rest = tree.tokens
  | .error (.lexical cause) => rest.Sticks (.lexical cause)
  | .error .unexpectedEndOfInput => rest.Sticks .unexpectedEndOfInput
  | .error (.unexpectedToken found) =>
    rest.next.1 = .ok found ∧
      (found ≠ .operator .add → found ≠ .operator .subtract →
        rest.Sticks (.unexpectedToken found)) ∧
      (found = .operator .add ∨ found = .operator .subtract →
        entry = .rule .atom ∧ l.consumedTo rest = [])
  | .error (.expectedClosingParen found) =>
    ∃ (outside w : List Token) (body : Expr), Derives .sum w body ∧ found ≠ .closeParen ∧
      l.consumedTo rest = outside ++ .openParen :: w ++ (if found.isEnd then [] else [found]) ∧
      (found = .endOfInput → rest.stream = .ending)

-- The signs by name.
theorem isSign_iff {found : Token} :
    (∃ op, found = .operator op ∧ op.isSign = true) ↔
      found = .operator .add ∨ found = .operator .subtract := by
  constructor
  · rintro ⟨op, rfl, hop⟩
    cases op with
    | add => exact Or.inl rfl
    | subtract => exact Or.inr rfl
    | _ => cases hop
  · rintro (rfl | rfl)
    · exact ⟨_, rfl, rfl⟩
    · exact ⟨_, rfl, rfl⟩

-- Only the rule of atoms itself is at the level of atoms.
theorem Entry.eq_of_level_atom {entry : Entry} (h : entry.level = .atom) : entry = .rule .atom := by
  cases entry with
  | statement => cases h
  | rule level => rw [← h, Entry.level]

/-- A request that has consumed the token in the place of a closing parenthesis. -/
theorem FailsAt.consumed_closing {level : Level} {l rest : Lexer} {found : Token}
    (h : FailsAt level l (.expectedClosingParen found) rest) :
    ∃ (outside w : List Token) (body : Expr), Derives .sum w body ∧ found ≠ .closeParen ∧
      l.consumedTo rest = outside ++ .openParen :: w ++ (if found.isEnd then [] else [found]) ∧
      (found = .endOfInput → rest.stream = .ending) := by
  cases h with
  | looking _ hcause _ =>
      rcases hnext : rest.next.1 with cause | t
      · rw [hnext] at hcause
        cases hcause
      · rw [hnext] at hcause
        cases t with
        | _ => cases hcause
  | @closing outside w body inner _ hwhole hderives hfound hunclosed hreach =>
      have hrest := Lexer.stream_next hreach.endIsLast
      refine ⟨outside, w, body, hderives, hunclosed, Lexer.consumedTo_eq ?_, ?_⟩
      · rw [hwhole, TokenStream.append_append _ (if found.isEnd then [] else [found]), hrest]
        refine congrArg _ ?_
        by_cases hend : found = .endOfInput
        · rw [hend] at hfound ⊢
          rw [Lexer.stream_of_end hfound]
          rfl
        · rw [Lexer.stream_of_token hfound (Token.isEnd_eq_false hend),
            Token.isEnd_eq_false hend]
          rfl
      · rintro rfl
        rw [hrest, Lexer.stream_of_end hfound, TokenStream.tail]

/-- Every request keeps the place. -/
theorem Entry.keepsPlace (entry : Entry) {l : Lexer} (h : l.Reachable) :
    entry.KeepsPlace l (entry.read l).2 (entry.read l).1 := by
  rcases hread : entry.read l with ⟨cause | tree, rest⟩
  · have hfails := read_fails entry.level l h cause rest (Entry.read_eq_error.mp hread)
    cases cause with
    | lexical cause => exact hfails.sticks nofun nofun
    | unexpectedEndOfInput => exact hfails.sticks nofun nofun
    | expectedClosingParen found => exact hfails.consumed_closing
    | unexpectedToken found =>
        have hlooking : rest.next.1 = .ok found ∧ (∀ op, found = .operator op → op.isSign = true →
            entry.level = .atom ∧ rest = l.peek.2) := by
          cases hfails with
          | looking _ hcause hsign =>
              exact ⟨next_of_unexpectedToken hcause,
                fun op hop => hsign op (congrArg _ hop)⟩
        refine ⟨hlooking.1, fun hadd hsubtract => hfails.sticks nofun fun op hop => ?_,
          fun hfound => ?_⟩
        · rw [Bool.eq_false_iff]
          intro hsign
          rcases isSign_iff.mp ⟨op, ParseError.unexpectedToken.inj hop, hsign⟩ with hfound | hfound
          · exact hadd hfound
          · exact hsubtract hfound
        · rcases isSign_iff.mpr hfound with ⟨op, hop, hsign⟩
          rcases hlooking.2 op hop hsign with ⟨hlevel, hrest⟩
          refine ⟨Entry.eq_of_level_atom hlevel, Lexer.consumedTo_eq ?_⟩
          rw [hrest, l.stream_peek]
          rfl
  · exact Lexer.consumedTo_eq (Entry.stream_of_read_ok hread)

/-- A parser keeps its place across errors. From any reachable lexer and behind any requests, each
    of which may have failed, one more request

    * leaves a lexer that answers for its outcome: after an error in reading a token, at the end of
      the input, and after a token that is not expected and no sign, all further requests give the
      same error and leave the same lexer; a sign is refused by the rule of atoms alone, which
      leaves it where it is; and where a parenthesis is not closed the token in its place, if there
      is one, is the last one consumed,
    * consumes the tokens in front of the ones that it leaves,
    * which are those that the lexer has handed out meanwhile.

    All the requests before it have together consumed what has been in front of it. -/
theorem place_kept_across_errors {start : Lexer} (h : start.Reachable) (earlier : List Entry)
    (entry : Entry) :
    let l := (Lexer.readAll earlier start).2
    let rest := (entry.read l).2
    entry.KeepsPlace l rest (entry.read l).1 ∧
      l.stream = l.consumedTo rest ++ rest.stream ∧
      (∃ calls, rest = l.afterAll calls ∧
        l.consumedTo rest = handedOut (l.answersAmong calls)) ∧
      start.stream = (Lexer.consumedInTurn earlier start).flatten ++ l.stream := by
  intro l rest
  have hreach : l.Reachable := h.readAll earlier
  exact ⟨entry.keepsPlace hreach, Lexer.stream_read entry hreach,
    Lexer.exists_calls entry hreach, Lexer.stream_readAll earlier h⟩

/-- A group that is not closed, and behind it a character that begins no token, read by a lexer
    that could not look as far ahead as it should. -/
theorem unclosed_group_then_stuck :
    ((Lexer.ofText "(1 2 $").step (.call (.lookahead 9))).Reachable ∧
      Lexer.consumedInTurn [.statement] ((Lexer.ofText "(1 2 $").step (.call (.lookahead 9)))
        = [[.openParen, .number "1", .number "2"]] ∧
      Lexer.Sticks (.lexical (.unrecognizedCharacter '$' 5))
        (Lexer.readAll [.statement, .rule .product]
          ((Lexer.ofText "(1 2 $").step (.call (.lookahead 9)))).2 := by
  have hreach := (Lexer.Reachable.start "(1 2 $").step (.call (.lookahead 9))
  have hconsumed : Lexer.consumedInTurn [.statement]
      ((Lexer.ofText "(1 2 $").step (.call (.lookahead 9)))
        = [[.openParen, .number "1", .number "2"]] := by
    decide +kernel
  have houtcome : (Entry.read (.rule .product) (Lexer.readAll [.statement]
      ((Lexer.ofText "(1 2 $").step (.call (.lookahead 9)))).2).1
        = .error (.lexical (.unrecognizedCharacter '$' 5)) := by
    decide +kernel
  have hkept := (place_kept_across_errors hreach [.statement] (.rule .product)).1
  rw [houtcome] at hkept
  exact ⟨hreach, hconsumed, hkept⟩

end Reckoner
