import Reckoner.Proofs.Lexer.Reachable
import Reckoner.Proofs.Parser.Grammar

/-!
# The Linear Scan

The parser seen from outside: what it accepts, what it complains about, and how
much it consumes.

None of this needs the levels. Whether the tokens can go on is decided by whether
an operand or an operator is due and by the number of parentheses that are open.
`TokenStream.scan` goes through a stream with these two and nothing else. It builds
no tree and has no stack, and it says where it stopped and why.

The descent does the same work on its stack of calls. `resume` is what connects
the two: a rule that has failed is a scan that has failed, and a rule that has
succeeded is a scan about to see what stands behind an operand. The open
parentheses of a scan are the calls of the descent that wait for one, which the
depth counts. A rule called at any depth therefore agrees with a scan that was
going on at that depth.

Only in one place do they differ. The rule of an atom refuses a sign, and the scan goes
on behind it. The descent comes to an atom only where no sign stands, so this is a
condition on the rule of atoms (`RuleScans`) and not on the parser.

## Main definitions

* `Mode`: What is due.
* `TokenStream.scan`: Goes through a stream with a mode and a depth.
* `resume`: The scan behind what a rule has read.

## Theorems

* `Reachable.read`, `Reachable.of_read`: Reading an expression leaves a reachable
  lexer.
* `resume_continueWith`: The scan behind one thing and then another.
* `scan_closeGroup`: The scan at a closing parenthesis.
* `rule_scans`: A rule agrees with the scan at every depth.
* `sum_scans`, `statement_scans`: A sum outside of all parentheses ends where the scan
  ends, and so does a statement.
* `parse_of_scan_error`: A text of which the scan fails cannot be read.
* `descent_eq_scan`: The parser agrees with the scan.
-/

namespace Reckoner

/-- What is due in an expression. -/
inductive Mode where
  /-- An operand, or what may stand in front of one. -/
  | operand
  /-- An operator, or what may stand behind an expression. -/
  | after

/-- Goes through a stream, with so many parentheses open. The answer comes with
    what is left: the token at which the scan stops stays, unless it stands where a
    parenthesis should have been closed. -/
def TokenStream.scan : Mode → Nat → TokenStream → Except ParseError Unit × TokenStream
  | _, _, failing cause => (.error (.lexical cause), failing cause)
  | .operand, _, ending => (.error .unexpectedEndOfInput, ending)
  | .operand, depth, token (.number _) rest => scan .after depth rest
  | .operand, depth, token .openParen rest => scan .operand (depth + 1) rest
  | .operand, depth, token (.operator op) rest =>
    if op.isSign then scan .operand depth rest
    else (.error (.unexpectedToken (.operator op)), token (.operator op) rest)
  | .operand, _, token found rest => (.error (.unexpectedToken found), token found rest)
  | .after, depth, token (.operator _) rest => scan .operand depth rest
  | .after, depth + 1, token .closeParen rest => scan .after depth rest
  | .after, 0, rest => (.ok (), rest)
  | .after, _ + 1, ending => (.error (.expectedClosingParen .endOfInput), ending)
  | .after, _ + 1, token found rest => (.error (.expectedClosingParen found), rest)

/-- The scan behind what a rule has read. -/
def resume (depth : Nat) (reading : Except ParseError Expr × Lexer) :
    Except ParseError Unit × TokenStream :=
  match reading.1 with
  | .error cause => (.error cause, reading.2.stream)
  | .ok _ => reading.2.stream.scan .after depth

/-- Reading an expression leaves a reachable lexer. -/
theorem Lexer.Reachable.read {l : Lexer} (h : l.Reachable) (level : Level) :
    (level.read l).2.Reachable :=
  read_preserves (fun _ h => h.step (.call .peek)) (fun _ h => h.step (.call .next)) level l h

theorem Lexer.Reachable.of_read {l rest : Lexer} {level : Level}
    {outcome : Except ParseError Expr} (h : l.Reachable)
    (hread : level.read l = (outcome, rest)) : rest.Reachable := by
  have hrest := h.read level
  rw [hread] at hrest
  exact hrest

-- A scan goes on behind a continuation if it goes on behind what comes before it. The
-- depths may differ, since the continuation may close a parenthesis.
theorem resume_continueWith {inner outer : Nat} {reading : Except ParseError Expr × Lexer}
    {continuation : Expr → Lexer → Except ParseError Expr × Lexer}
    (h : ∀ e rest, reading = (.ok e, rest) →
      rest.stream.scan .after inner = resume outer (continuation e rest)) :
    resume inner reading = resume outer (continueWith reading continuation) := by
  rcases reading with ⟨cause | e, rest⟩
  · rfl
  · exact h e rest rfl

-- A sum ends only before a token that can be seen and is no operator.
theorem head_of_sum_stops {rest : TokenStream} (h : Level.sum.StopsBefore rest) :
    ∃ t, rest.head = .ok t ∧ ∀ op, t ≠ .operator op := by
  rcases h rfl with ⟨t, hhead, hop⟩
  refine ⟨t, hhead, fun op ht => ?_⟩
  have hrank := hop op ht
  cases op with
  | _ => exact absurd hrank (by decide)

-- Behind the sum in a pair of parentheses the scan sees what the atom sees. The sum has
-- ended, so what stands there is neither an operator nor an error.
theorem scan_closeGroup {inner : Lexer} (h : inner.Reachable) (body : Expr) (depth : Nat)
    (hstops : Level.sum.StopsBefore inner.stream) :
    inner.stream.scan .after (depth + 1) = resume depth (closeGroup body inner) := by
  rcases head_of_sum_stops hstops with ⟨t, hhead, hop⟩
  rw [Lexer.head_stream] at hhead
  have hrest := Lexer.stream_next h.endIsLast
  rw [closeGroup, hhead]
  cases t with
  | endOfInput =>
      rw [Lexer.stream_of_end hhead] at hrest ⊢
      simp only [resume, hrest]
      rfl
  | operator op => exact absurd rfl (hop op)
  | _ =>
      rw [Lexer.stream_of_token hhead rfl]
      rfl

-- The operands of a binary level may have signs.
theorem tighter_ne_atom {level : Level} (h : level.isBinary = true) : level.tighter ≠ .atom := by
  cases level with
  | sign => exact absurd h Bool.false_ne_true
  | atom => exact absurd h Bool.false_ne_true
  | _ => decide

/-- The rule of a level agrees with the scan, at whatever depth. An atom is read only
    where no sign stands. -/
def RuleScans (level : Level) (l : Lexer) : Prop :=
  l.Reachable →
    (level = .atom → ∀ op, l.next.1 = .ok (.operator op) → op.isSign = false) →
    ∀ depth, l.stream.scan .operand depth = resume depth (level.read l)

/-- The chain of a level agrees with the scan, at whatever depth. -/
def ChainScans (level : Level) (l : Lexer) : Prop :=
  l.Reachable → ∀ depth left, l.stream.scan .after depth = resume depth (level.readChain left l)

-- An atom. At an opening parenthesis the scan goes one deeper, and the sum inside
-- agrees with it there.
theorem atom_scans (l : Lexer) (ih : l.next.1 = .ok .openParen → RuleScans .sum l.next.2) :
    RuleScans .atom l := by
  intro hreach hsign depth
  rw [read_atom_of_next]
  rcases hnext : l.next.1 with cause | t
  · simp only [resume, Lexer.stream_peek, Lexer.stream_of_error hnext]
    rfl
  · cases t with
    | endOfInput =>
        simp only [resume, Lexer.stream_peek, Lexer.stream_of_end hnext]
        rfl
    | number literal =>
        rw [Lexer.stream_of_token hnext rfl]
        rfl
    | openParen =>
        have hinside : l.next.2.Reachable := hreach.step (.call .next)
        rw [Lexer.stream_of_token hnext rfl, TokenStream.scan,
          ih hnext hinside nofun (depth + 1)]
        refine resume_continueWith fun body inner hread => ?_
        rcases read_sound .sum l.next.2 body inner hread with ⟨w, -, -, hstops⟩
        exact scan_closeGroup (hinside.of_read hread) body depth hstops
    | operator op =>
        simp only [resume, Lexer.stream_peek, Lexer.stream_of_token hnext rfl, TokenStream.scan,
          hsign rfl op hnext]
        rfl
    | _ =>
        simp only [resume, Lexer.stream_peek, Lexer.stream_of_token hnext rfl]
        rfl

-- A signed operand. At a sign the scan stays where it is.
theorem sign_scans (l : Lexer)
    (ihSign : ∀ op, l.next.1 = .ok (.operator op) → op.isSign = true → RuleScans .sign l.next.2)
    (ihAtom : RuleScans .atom l.peek.2) : RuleScans .sign l := by
  intro hreach _ depth
  rw [read_sign_of_next]
  split
  · rename_i cause hnext
    simp only [resume, Lexer.stream_peek, Lexer.stream_of_error hnext]
    rfl
  · rename_i t hnext
    split
    · rename_i hnone
      rw [← l.stream_peek]
      refine ihAtom (hreach.step (.call .peek)) (fun _ op hop => ?_) depth
      rw [Lexer.next_peek_eq, hnext, Except.ok.injEq] at hop
      rw [Bool.eq_false_iff]
      intro hsign
      rw [Token.operatorIf?_eq_some.mpr ⟨hop, hsign⟩] at hnone
      exact absurd hnone (by simp only [reduceCtorEq, not_false_eq_true])
    · rename_i op hop
      rcases Token.operatorIf?_eq_some.mp hop with ⟨rfl, hsign⟩
      rw [Lexer.stream_of_token hnext rfl, TokenStream.scan, if_pos hsign,
        ihSign op hnext hsign (hreach.step (.call .next)) nofun depth]
      exact resume_continueWith fun _ _ _ => rfl

theorem binary_scans (level : Level) (l : Lexer) (hlevel : level.isBinary = true)
    (ih : RuleScans level.tighter l)
    (ihChain : ∀ first rest, level.tighter.read l = (.ok first, rest) → ChainScans level rest) :
    RuleScans level l := by
  intro hreach _ depth
  rw [read_binary hlevel, ih hreach (fun hatom => absurd hatom (tighter_ne_atom hlevel)) depth]
  refine resume_continueWith fun first rest hread => ?_
  exact ihChain first rest hread (hreach.of_read hread) depth first

-- A chain. An operator that is not of its level is left to the levels above, which the
-- scan does not tell apart.
theorem chain_scans (level : Level) (l : Lexer)
    (ih : ∀ op, l.next.1 = .ok (.operator op) → level.joins op = true →
      RuleScans level.tighter l.next.2 ∧
        ∀ right rest, level.tighter.read l.next.2 = (.ok right, rest) → ChainScans level rest) :
    ChainScans level l := by
  intro hreach depth left
  rw [readChain_of_next]
  split
  · rename_i cause hnext
    simp only [resume, Lexer.stream_peek, Lexer.stream_of_error hnext]
    rfl
  · rename_i t hnext
    split
    · -- The scan has not moved, and goes on behind the expression as it is.
      simp only [resume, Lexer.stream_peek]
    · rename_i op hop
      rcases Token.operatorIf?_eq_some.mp hop with ⟨rfl, hjoins⟩
      rcases ih op hnext hjoins with ⟨ihOperand, ihRest⟩
      have htighter := tighter_ne_atom (isBinary_of_joins hjoins)
      have hoperand : l.next.2.Reachable := hreach.step (.call .next)
      rw [Lexer.stream_of_token hnext rfl, TokenStream.scan,
        ihOperand hoperand (fun hatom => absurd hatom htighter) depth]
      refine resume_continueWith fun right rest hread => ?_
      exact ihRest right rest hread (hoperand.of_read hread) depth _

/-- A rule agrees with the scan of its stream at every depth: where the rule fails
    the scan fails, with the same error and the same tokens left, and where it
    succeeds the scan has come to the place behind its expression. -/
theorem rule_scans (level : Level) (l : Lexer) : RuleScans level l :=
  (read_induction atom_scans sign_scans binary_scans chain_scans).1 level l

/-- A sum read outside of all parentheses ends where the scan ends. -/
theorem sum_scans {l : Lexer} (h : l.Reachable) :
    l.stream.scan .operand 0
      = ((Level.sum.read l).1.map fun _ => (), (Level.sum.read l).2.stream) := by
  rw [rule_scans .sum l h nofun 0]
  rcases hread : Level.sum.read l with ⟨cause | e, rest⟩
  · rfl
  · rcases read_sound .sum l e rest hread with ⟨w, -, -, hstops⟩
    rcases head_of_sum_stops hstops with ⟨t, hhead, hop⟩
    simp only [resume]
    rcases hstream : rest.stream with _ | cause | ⟨t', behind⟩
    · rfl
    · rw [hstream] at hhead
      exact absurd hhead (by simp only [TokenStream.head, reduceCtorEq, not_false_eq_true])
    · rw [hstream, TokenStream.head, Except.ok.injEq] at hhead
      cases t' with
      | operator op => exact absurd hhead.symm (hop op)
      | _ => rfl

/-- A statement ends where the scan ends. -/
theorem statement_scans {l : Lexer} (h : l.Reachable) :
    l.stream.scan .operand 0 = (l.readStatement.1.map fun _ => (), l.readStatement.2.stream) := by
  rw [sum_scans h, readStatement_eq]
  rcases Level.sum.read l with ⟨cause | e, rest⟩
  · rfl
  · rfl

/-- Where the scan of a text fails the text cannot be read, for the same reason. -/
theorem parse_of_scan_error {source : String} {cause : ParseError}
    (h : ((Lexer.ofText source).stream.scan .operand 0).1 = .error cause) :
    parse source = .error cause := by
  rw [statement_scans (.start source)] at h
  rw [parse]
  rcases hread : (Lexer.ofText source).readStatement.1 with cause' | tree
  · rw [hread] at h
    rw [← Except.error.inj h]
  · rw [hread] at h
    cases h

/-- The parser agrees with the scan of its stream in everything that can be seen of
    it but the tree: whether it succeeds, the error and the token that the error
    names, and the tokens that are left. -/
theorem descent_eq_scan {l : Lexer} (h : l.Reachable) :
    ((Level.sum.read l).1.map fun _ => (), (Level.sum.read l).2.stream) = l.stream.scan .operand 0 ∧
      (l.readStatement.1.map fun _ => (), l.readStatement.2.stream)
        = l.stream.scan .operand 0 :=
  ⟨(sum_scans h).symm, (statement_scans h).symm⟩

/-- A parenthesis that is not closed, read by a lexer that has looked at all of it:
    the token in its place is consumed. -/
theorem scan_unclosed_group :
    ((Lexer.ofText "(1 2 3").step (.call (.lookahead 4))).Reachable ∧
      (((Lexer.ofText "(1 2 3").step (.call (.lookahead 4))).readStatement.1.map fun _ => (),
        ((Lexer.ofText "(1 2 3").step (.call (.lookahead 4))).readStatement.2.stream)
        = (.error (.expectedClosingParen (.number "2")), .token (.number "3") .ending) := by
  have hreach := (Lexer.Reachable.start "(1 2 3").step (.call (.lookahead 4))
  have hstream : ((Lexer.ofText "(1 2 3").step (.call (.lookahead 4))).stream
      = .token .openParen (.token (.number "1") (.token (.number "2")
        (.token (.number "3") .ending))) := by
    decide +kernel
  refine ⟨hreach, ?_⟩
  rw [(descent_eq_scan hreach).2, hstream]
  rfl

end Reckoner
