import Reckoner.Proofs.Parser.Canonical
import Reckoner.Proofs.Parser.Scan

/-!
# Verdicts

What the parser makes of a text, by the stream of its tokens alone.

Two texts may be cut into the same tokens, or into tokens that agree up to some
place, although none of their lexers are the same. What such texts have in common
is said about their streams. A text is read as a tree exactly if its stream can be
cut into an expression with that tree and a rest before which a sum ends, and it
cannot be read exactly if the scan of its stream fails.

The scan goes on behind a token or it refuses it. `Mode.step` is one token of that, and
several tokens are a fold of it. So every scan goes over some tokens and then comes
to a token that it refuses or to the end of the stream, and in the first of these cases
it does not matter what stands behind the token (`HaltsBehind`).

## Main definitions

* `ParseError.named?`: The token that an error names.
* `Mode.step`: What is due behind a token.
* `TokenStream.HaltsBehind`: How a scan ends behind some tokens.
* `TokenStream.DecidedBy`: The tokens up to the one that decides what is read.

## Theorems

* `exists_splits_of_parse`: What is read and what is left cut the stream.
* `parse_eq_ok_iff`, `parse_eq_error_iff`: What is read, by the stream.
* `scan_of_step`, `scan_of_run`: The scan behind one token and behind several.
* `scan_of_refused`: The scan at a token that it refuses.
* `exists_run`: Every scan goes over some tokens and stops behind them.
* `exists_haltsBehind`: Every scan ends in one of the ways it can end in.
* `scan_of_decidedBy`: What stands behind a token that is not expected has no influence.
-/

namespace Reckoner

/-- What is read from a text as a tree cuts the stream of its tokens, and the parser leaves the
    rest. -/
theorem exists_splits_of_parse {source : String} {tree : Expr} (h : parse source = .ok tree) :
    ∃ e w, tree = .statement e ∧ Level.sum.Splits (Lexer.ofText source).stream w e
      (Lexer.ofText source).readStatement.2.stream := by
  rcases readStatement_eq_ok.mp h with ⟨e, htree, hread⟩
  rcases read_sound .sum (Lexer.ofText source) e _ (Prod.ext hread rfl) with ⟨w, hsplits⟩
  refine ⟨e, w, htree, ?_⟩
  rw [readStatement_eq, ← Prod.eta (Level.sum.read (Lexer.ofText source)), hread]
  exact hsplits

/-- What is read from a text as a tree, by the stream of its tokens. -/
theorem parse_eq_ok_iff {source : String} {tree : Expr} :
    parse source = .ok tree ↔
      ∃ e w rest, tree = .statement e ∧ Level.sum.Splits (Lexer.ofText source).stream w e rest := by
  constructor
  · intro h
    rcases exists_splits_of_parse h with ⟨e, w, htree, hsplits⟩
    exact ⟨e, w, _, htree, hsplits⟩
  · rintro ⟨e, w, rest, htree, hsplits⟩
    refine readStatement_eq_ok.mpr ⟨e, htree, ?_⟩
    rcases accepts_of_derives hsplits.derives _ rest hsplits.whole_eq hsplits.stops with
      ⟨l', hread, -⟩
    rw [hread]

/-- Why a text cannot be read, by the stream of its tokens. -/
theorem parse_eq_error_iff {source : String} {cause : ParseError} :
    parse source = .error cause ↔
      ((Lexer.ofText source).stream.scan .operand 0).1 = .error cause := by
  rw [statement_scans (.start source), parse]
  rcases (Lexer.ofText source).readStatement.1 with cause' | tree
  · exact ⟨fun h => by rw [Except.error.inj h]; rfl, fun h => by rw [Except.error.inj h]⟩
  · constructor
    · intro h
      cases h
    · intro h
      cases h

/-- The token that an error names. -/
def ParseError.named? : ParseError → Option Token
  | expectedClosingParen found => some found
  | unexpectedToken found => some found
  | _ => none

/-- What is due behind a token and how many parentheses are then open, if the token can
    stand where it stands. -/
def Mode.step : Mode × Nat → Token → Option (Mode × Nat)
  | (.operand, depth), .number _ => some (.after, depth)
  | (.operand, depth), .openParen => some (.operand, depth + 1)
  | (.operand, depth), .operator op => if op.isSign then some (.operand, depth) else none
  | (.after, depth), .operator _ => some (.operand, depth)
  | (.after, depth + 1), .closeParen => some (.after, depth)
  | _, _ => none

namespace TokenStream

variable {mode mode' : Mode} {depth depth' : Nat} {t : Token}

/-- Behind a token that can stand where it stands the scan goes on. -/
theorem scan_of_step (h : Mode.step (mode, depth) t = some (mode', depth')) (rest : TokenStream) :
    (token t rest).scan mode depth = rest.scan mode' depth' := by
  cases mode with
  | operand =>
      cases t with
      | operator op =>
          rw [Mode.step] at h
          split at h
          · rename_i hsign
            cases h
            rw [scan, if_pos hsign]
          · cases h
      | number literal => cases h; rfl
      | openParen => cases h; rfl
      | _ => cases h
  | after =>
      cases t with
      | operator op =>
          rw [Mode.step] at h
          cases h
          cases depth with
          | zero => rfl
          | succ depth => rfl
      | closeParen =>
          cases depth with
          | zero => cases h
          | succ depth => cases h; rfl
      | _ => cases h

/-- The same for several tokens in a row. -/
theorem scan_of_run {w : List Token} (h : w.foldlM Mode.step (mode, depth) = some (mode', depth'))
    (rest : TokenStream) : (w ++ rest).scan mode depth = rest.scan mode' depth' := by
  induction w generalizing mode depth with
  | nil =>
      rw [List.foldlM_nil] at h
      cases h
      rfl
  | cons t w ih =>
      rw [List.foldlM_cons] at h
      rcases Option.bind_eq_some_iff.mp h with ⟨⟨mode₁, depth₁⟩, hstep, hrun⟩
      rw [cons_append, scan_of_step hstep, ih hrun]

/-- At a token that cannot stand where it stands the scan comes to its verdict. -/
theorem scan_of_refused (h : Mode.step (mode, depth) t = none) (rest : TokenStream) :
    (token t rest).scan mode depth =
      match mode, depth with
      | .operand, _ => (.error (.unexpectedToken t), token t rest)
      | .after, 0 => (.ok (), token t rest)
      | .after, _ + 1 => (.error (.expectedClosingParen t), rest) := by
  cases mode with
  | operand =>
      cases t with
      | operator op =>
          rw [Mode.step] at h
          split at h
          · cases h
          · rename_i hsign
            rw [scan, if_neg hsign]
      | number literal => cases h
      | openParen => cases h
      | _ => rfl
  | after =>
      cases depth with
      | zero =>
          cases t with
          | operator op => cases h
          | _ => rfl
      | succ depth =>
          cases t with
          | operator op => cases h
          | closeParen => cases h
          | _ => rfl

/-- Every scan goes over some tokens and then refuses one, if there is another one. -/
theorem exists_run (s : TokenStream) (mode : Mode) (depth : Nat) :
    ∃ (w : List Token) (rest : TokenStream) (mode' : Mode) (depth' : Nat),
      s = w ++ rest ∧ w.foldlM Mode.step (mode, depth) = some (mode', depth') ∧
        ∀ t behind, rest = token t behind → Mode.step (mode', depth') t = none := by
  induction s generalizing mode depth with
  | ending => exact ⟨[], ending, mode, depth, rfl, rfl, nofun⟩
  | failing cause => exact ⟨[], failing cause, mode, depth, rfl, rfl, nofun⟩
  | token t s ih =>
      rcases hstep : Mode.step (mode, depth) t with _ | ⟨mode₁, depth₁⟩
      · refine ⟨[], token t s, mode, depth, rfl, rfl, fun t' behind hrest => ?_⟩
        rw [← (token.inj hrest).1]
        exact hstep
      · rcases ih mode₁ depth₁ with ⟨w, rest, mode', depth', hwhole, hrun, hrefused⟩
        refine ⟨t :: w, rest, mode', depth', ?_, ?_, hrefused⟩
        · rw [hwhole, cons_append]
        · rw [List.foldlM_cons, hstep]
          exact hrun

/-- How a scan ends behind some tokens of a stream. Where it ends at a token because of that token,
    what stands behind the token has no influence. -/
inductive HaltsBehind (mode : Mode) (depth : Nat) (s : TokenStream) (w : List Token) :
    Except ParseError Unit × TokenStream → Prop
  | accepted {rest : TokenStream} (hwhole : s = w ++ rest) :
      HaltsBehind mode depth s w (.ok (), rest)
  | lexical {cause : LexError} (hwhole : s = w ++ failing cause) :
      HaltsBehind mode depth s w (.error (.lexical cause), failing cause)
  | ended (hwhole : s = w ++ ending) :
      HaltsBehind mode depth s w (.error .unexpectedEndOfInput, ending)
  | unclosed (hwhole : s = w ++ ending) :
      HaltsBehind mode depth s w (.error (.expectedClosingParen .endOfInput), ending)
  | refused {t : Token} {rest : TokenStream} (hwhole : s = w ++ token t rest)
      (hfinal : ∀ rest', (w ++ token t rest').scan mode depth
        = (.error (.unexpectedToken t), token t rest')) :
      HaltsBehind mode depth s w (.error (.unexpectedToken t), token t rest)
  | mismatched {t : Token} {rest : TokenStream} (hwhole : s = w ++ token t rest)
      (hfinal : ∀ rest', (w ++ token t rest').scan mode depth
        = (.error (.expectedClosingParen t), rest')) :
      HaltsBehind mode depth s w (.error (.expectedClosingParen t), rest)

/-- Every scan ends in one of these ways. -/
theorem exists_haltsBehind (s : TokenStream) (mode : Mode) (depth : Nat) :
    ∃ w : List Token, HaltsBehind mode depth s w (s.scan mode depth) := by
  rcases s.exists_run mode depth with ⟨w, rest, mode', depth', hwhole, hrun, hrefused⟩
  have hscan := scan_of_run hrun
  refine ⟨w, ?_⟩
  have hverdict : s.scan mode depth = rest.scan mode' depth' := by rw [hwhole, hscan]
  rw [hverdict]
  cases rest with
  | failing cause =>
      have hfailing : (failing cause).scan mode' depth'
          = (.error (.lexical cause), failing cause) := by
        cases mode' with
        | _ => cases depth' with
          | _ => rfl
      rw [hfailing]
      exact .lexical hwhole
  | ending =>
      cases mode' with
      | operand => exact .ended hwhole
      | after =>
          cases depth' with
          | zero => exact .accepted hwhole
          | succ depth' => exact .unclosed hwhole
  | token t rest =>
      have hstop := scan_of_refused (hrefused t rest rfl)
      rw [hstop]
      cases mode' with
      | operand => exact .refused hwhole fun rest' => by rw [hscan, hstop]
      | after =>
          cases depth' with
          | zero => exact .accepted hwhole
          | succ depth' => exact .mismatched hwhole fun rest' => by rw [hscan, hstop]

/-- The tokens of a stream up to and including the one that decides what is read from it. -/
inductive DecidedBy (whole : TokenStream) : Except ParseError Expr → List Token → Prop
  /-- An expression is decided by the token behind it, or by the end. -/
  | expression {e : Expr} {w : List Token} {rest : TokenStream}
      (hsplits : Level.sum.Splits whole w e rest) :
      DecidedBy whole (.ok (.statement e)) (w ++ rest.tokens.take 1)
  /-- Where no further token can be read all tokens have come before. -/
  | lexical {cause : LexError} {w : List Token} (hwhole : whole = w ++ failing cause) :
      DecidedBy whole (.error (.lexical cause)) w
  /-- So they have where the end is not expected. -/
  | ended {w : List Token} (hwhole : whole = w ++ ending) :
      DecidedBy whole (.error .unexpectedEndOfInput) w
  | unclosed {w : List Token} (hwhole : whole = w ++ ending) :
      DecidedBy whole (.error (.expectedClosingParen .endOfInput)) w
  /-- A token that is not expected decides by itself. -/
  | refused {t : Token} {w : List Token} {rest : TokenStream} (hwhole : whole = w ++ token t rest)
      (hscan : whole.scan .operand 0 = (.error (.unexpectedToken t), token t rest)) :
      DecidedBy whole (.error (.unexpectedToken t)) (w ++ [t])
  | mismatched {t : Token} {w : List Token} {rest : TokenStream}
      (hwhole : whole = w ++ token t rest)
      (hscan : whole.scan .operand 0 = (.error (.expectedClosingParen t), rest)) :
      DecidedBy whole (.error (.expectedClosingParen t)) (w ++ [t])

/-- A token that is not expected decides whatever stands behind it. -/
theorem scan_of_decidedBy {whole : TokenStream} {cause : ParseError} {seen : List Token}
    (rest : TokenStream) (hnamed : cause.named? = some t) (ht : t ≠ .endOfInput)
    (h : whole.DecidedBy (.error cause) seen) :
    ((seen ++ rest).scan .operand 0).1 = .error cause := by
  rcases whole.exists_haltsBehind .operand 0 with ⟨v, hhalts⟩
  cases h with
  | lexical => cases hnamed
  | ended => cases hnamed
  | unclosed => exact absurd (Option.some.inj hnamed).symm ht
  | refused hwhole hscan =>
      rw [hscan] at hhalts
      cases hhalts with
      | refused hwhole' hfinal =>
          rw [append_left_injective (hwhole.symm.trans hwhole'), append_append]
          exact congrArg Prod.fst (hfinal rest)
  | mismatched hwhole hscan =>
      rw [hscan] at hhalts
      cases hhalts with
      | unclosed => exact absurd (Option.some.inj hnamed).symm ht
      | mismatched hwhole' hfinal =>
          rw [append_left_injective (hwhole.symm.trans hwhole'), append_append]
          exact congrArg Prod.fst (hfinal rest)

/-- Where a scan fails the tokens that it has consumed and the one that it has seen ahead are those
    up to the one that decides. A token in the place of a closing parenthesis has been consumed, and
    nothing is seen behind it. -/
theorem decidedBy_of_scan {whole rest : TokenStream} {cause : ParseError} {w ahead : List Token}
    (hscan : whole.scan .operand 0 = (.error cause, rest)) (hwhole : whole = w ++ rest)
    (hahead : match cause with
      | .expectedClosingParen _ => ahead = []
      | _ => ahead = rest.tokens.take 1) :
    whole.DecidedBy (.error cause) (w ++ ahead) := by
  rcases whole.exists_haltsBehind .operand 0 with ⟨v, hhalts⟩
  rw [hscan] at hhalts
  cases hhalts with
  | lexical _ =>
      rw [hahead, tokens, List.take_nil, List.append_nil]
      exact .lexical hwhole
  | ended _ =>
      rw [hahead, tokens, List.take_nil, List.append_nil]
      exact .ended hwhole
  | unclosed _ =>
      rw [hahead, List.append_nil]
      exact .unclosed hwhole
  | refused _ _ =>
      rw [hahead]
      exact .refused hwhole hscan
  | @mismatched t _ hwhole' _ =>
      have hconsumed : w = v ++ [t] := by
        refine append_left_injective (s := rest) ?_
        rw [← hwhole, hwhole', append_append]
        rfl
      rw [hahead, List.append_nil, hconsumed]
      exact .mismatched hwhole' hscan

end TokenStream

end Reckoner
