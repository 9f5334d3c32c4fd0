import Reckoner.Proofs.Evaluation.Failures
import Reckoner.Proofs.Lexer.Cutting
import Reckoner.Proofs.Parser.Verdict

/-!
# Finality

That nothing joined to a text changes what has been decided about it.

A text is read up to the first token that decides. If that token is not the end, what
further text makes of the rest is out of the parser's sight. It is not out of sight of the
scanner, which has to look at the character behind a token to know that the token is
complete. So the decision may depend on the one character behind the token that decides.

Where an expression has been read it does not. The token behind it may grow if further
text is joined to it, from one number to a longer one, but it stays a token that is no
operator (`Tokenizes.append_of_not_operator`), and that is all that has been asked of it.
An error names the token, so it may change with the token; if a character stands behind
the token it is complete, and the error is final. The same goes for a character
that begins no token: a dot that is followed by anything but a digit will never begin a
number.

## Main definitions

* `GoesOnBehind`: Something stands behind what an error names.

## Theorems

* `parse_append_of_ok`, `parse_append_of_named`, `parse_append_of_unrecognized`: What is
  read from a longer text.
* `decided_is_final`: What has been decided stays decided.
-/

namespace Reckoner

/-- Something stands in a text behind what an error names: a character behind the one that was
    complained about, or behind the token that is not expected. -/
def GoesOnBehind (source : String) (cause : ParseError) : Prop :=
  match cause with
  | .lexical (.unrecognizedCharacter _ position) => position + 1 < source.toList.length
  | _ => ∃ found, cause.named? = some found ∧ found ≠ .endOfInput ∧ ∃ seen c rest,
      (Lexer.ofText source).stream.DecidedBy (.error cause) seen ∧
        Tokenizes source.toList seen (c :: rest)

variable {source : String}

/-- A tree that was read is read from a longer text as well, unless the end was behind it. -/
theorem parse_append_of_ok {tree : Expr} (h : parse source = .ok tree)
    (hstop : (Lexer.ofText source).readStatement.2.next.1 ≠ .ok .endOfInput) (further : String) :
    parse (source ++ further) = .ok tree := by
  rcases exists_splits_of_parse h with ⟨e, w, htree, hsplits⟩
  rcases head_of_sum_stops hsplits.stops with ⟨t, hhead, hop⟩
  rcases hrest : (Lexer.ofText source).readStatement.2.stream with _ | cause | ⟨t', behind⟩
  · rw [← Lexer.head_stream, hrest] at hstop
    exact absurd rfl hstop
  · rw [hrest] at hhead
    cases hhead
  · rw [hrest] at hhead
    rw [Except.ok.inj hhead] at hrest
    -- The tokens of the tree, and then the token behind it.
    have hstream : (Lexer.ofText source).stream = w ++ TokenStream.token t behind := by
      rw [hsplits.whole_eq, hrest]
    rcases Lexer.exists_behind rfl hstream with ⟨l, hqueue, hbehind, hfront, -⟩
    rcases @Lexer.exists_behind l [t] behind hqueue hbehind with ⟨l', -, -, htoken, -⟩
    rcases htoken.append_of_not_operator hop further.toList with ⟨t', rest', htoken', hop'⟩
    have htokens : Tokenizes (source ++ further).toList (w ++ [t']) rest' := by
      rw [String.toList_append]
      rcases hunread : l.unread with _ | ⟨c, text⟩
      · -- No token is cut from nothing.
        rcases htoken.exists_front with ⟨front, htext, hempty, -⟩
        rw [hunread] at htext
        exact absurd (hempty (List.append_eq_nil_iff.mp htext.symm).1) (List.cons_ne_nil _ _)
      · rw [hunread] at hfront htoken'
        exact (hfront.append_behind further.toList).append htoken'
    rcases stream_of_tokenizes htokens (Lexer.ofText (source ++ further)) rfl rfl with
      ⟨l'', -, -, -, hstream'⟩
    rw [TokenStream.append_append] at hstream'
    exact parse_eq_ok_iff.mpr ⟨e, w, _, htree, hstream', hsplits.derives,
      fun _ => ⟨t', rfl, fun op ht' => absurd ht' (hop' op)⟩⟩

/-- So is an error that names a token, if something stands behind the token. -/
theorem parse_append_of_named {cause : ParseError} {t : Token} {seen : List Token} {c : Char}
    {rest : List Char} (hnamed : cause.named? = some t) (ht : t ≠ .endOfInput)
    (hdecided : (Lexer.ofText source).stream.DecidedBy (.error cause) seen)
    (htokens : Tokenizes source.toList seen (c :: rest)) (further : String) :
    parse (source ++ further) = .error cause := by
  have htokens' : Tokenizes (source ++ further).toList seen (c :: rest ++ further.toList) := by
    rw [String.toList_append]
    exact htokens.append_behind further.toList
  rcases stream_of_tokenizes htokens' (Lexer.ofText (source ++ further)) rfl rfl with
    ⟨l, -, -, -, hstream⟩
  rw [parse_eq_error_iff, hstream]
  exact TokenStream.scan_of_decidedBy _ hnamed ht hdecided

/-- So is a complaint about a character, if something stands behind the character. -/
theorem parse_append_of_unrecognized {c : Char} {position : Nat}
    (h : parse source = .error (.lexical (.unrecognizedCharacter c position)))
    (hbehind : position + 1 < source.toList.length) (further : String) :
    parse (source ++ further) = .error (.lexical (.unrecognizedCharacter c position)) := by
  have hscan := parse_eq_error_iff.mp h
  rcases (Lexer.ofText source).stream.exists_haltsBehind .operand 0 with ⟨w, hhalts⟩
  rcases hresult : (Lexer.ofText source).stream.scan .operand 0 with ⟨outcome, left⟩
  rw [hresult] at hhalts hscan
  dsimp only at hscan
  subst hscan
  cases hhalts with
  | lexical hwhole =>
      rcases failing_of_stream_ofText hwhole with
        ⟨before, behind, c', htext, htokens, hblank, hnone, hcause⟩
      rcases LexError.unrecognizedCharacter.inj hcause with ⟨rfl, rfl⟩
      have hlength := congrArg List.length htext
      rw [List.length_append, List.length_cons] at hlength
      rcases behind with _ | ⟨c', behind⟩
      · rw [List.length_nil] at hlength
        omega
      · have htokens' := htokens.append_behind further.toList
        rw [← String.toList_append] at htokens'
        have htext' : (source ++ further).toList
            = before ++ c :: c' :: (behind ++ further.toList) := by
          rw [String.toList_append, htext, List.append_assoc]
          rfl
        have hstream := stream_ofText_failing htext' htokens' hblank
          (not_front_append further.toList hnone)
        rw [parse_eq_error_iff, hstream, ← hwhole, hresult]

/-- What has been decided about a text is final, whatever text is joined to it, one that cannot be
    cut into tokens included.

    * If an expression was read and the token behind it is not the end, the same tree is
      read from the longer text, and it has the same value.
    * If the text could not be read because of a token other than the end, or because of a
      character that begins no token, and something stands behind these, the longer text
      cannot be read for the same reason. -/
theorem decided_is_final (source further : String) :
    (∀ tree, parse source = .ok tree →
      (Lexer.ofText source).readStatement.2.next.1 ≠ .ok .endOfInput →
        parse (source ++ further) = .ok tree ∧ evaluate (source ++ further) = evaluate source) ∧
      ∀ cause, parse source = .error cause → GoesOnBehind source cause →
        parse (source ++ further) = .error cause ∧
          evaluate (source ++ further) = evaluate source := by
  have hvalue : ∀ {outcome}, parse source = outcome → parse (source ++ further) = outcome →
      parse (source ++ further) = outcome ∧ evaluate (source ++ further) = evaluate source := by
    intro outcome h h'
    rw [evaluate_eq, evaluate_eq, h, h']
    exact ⟨rfl, rfl⟩
  refine ⟨fun tree h hstop => hvalue h (parse_append_of_ok h hstop further),
    fun cause h hbehind => hvalue h ?_⟩
  unfold GoesOnBehind at hbehind
  split at hbehind
  · exact parse_append_of_unrecognized h hbehind further
  · rcases hbehind with ⟨found, hnamed, hfound, seen, c, rest, hdecided, htokens⟩
    exact parse_append_of_named hnamed hfound hdecided htokens further

/-- A number behind an expression grows to a longer one, a parenthesis that was not closed stays so,
    and a dot before a dot begins no number although the second one comes to do so. -/
theorem joined_text_changes_nothing :
    (parse "1 .5" = .ok (.statement (.number "1")) ∧
        (Lexer.ofText "1 .5").readStatement.2.next.1 ≠ .ok .endOfInput ∧
        parse ("1 .5" ++ "7$") = .ok (.statement (.number "1"))) ∧
      (GoesOnBehind "(1 2 " (.expectedClosingParen (.number "2")) ∧
        parse ("(1 2 " ++ "3") = .error (.expectedClosingParen (.number "2"))) ∧
      GoesOnBehind "1+.." (.lexical (.unrecognizedCharacter '.' 2)) ∧
        parse ("1+.." ++ "5") = .error (.lexical (.unrecognizedCharacter '.' 2)) := by
  have hnumber : parse "1 .5" = .ok (.statement (.number "1")) := by decide +kernel
  have hstop : (Lexer.ofText "1 .5").readStatement.2.next.1 ≠ .ok .endOfInput := by
    decide +kernel
  have hunclosed : parse "(1 2 " = .error (.expectedClosingParen (.number "2")) := by
    decide +kernel
  have hdot : parse "1+.." = .error (.lexical (.unrecognizedCharacter '.' 2)) := by
    decide +kernel
  have hbehind : GoesOnBehind "(1 2 " (.expectedClosingParen (.number "2")) := by
    have hdecided := @TokenStream.DecidedBy.mismatched (Lexer.ofText "(1 2 ").stream (.number "2")
      [.openParen, .number "1"] .ending (by decide +kernel) (by decide +kernel)
    refine ⟨.number "2", rfl, nofun, _, ' ', [], hdecided, ?_⟩
    have hone := @tokenizes_number (' ' :: ("2".toList ++ [' '])) "1" (by decide)
      (Expr.endsBefore_space _)
    have htwo := @tokenizes_number [' '] "2" (by decide) (Expr.endsBefore_space _)
    exact tokenizes_openParen.append (hone.append (.blank rfl htwo))
  have hbehindDot : GoesOnBehind "1+.." (.lexical (.unrecognizedCharacter '.' 2)) := by
    change 2 + 1 < "1+..".toList.length
    decide
  exact ⟨⟨hnumber, hstop, ((decided_is_final "1 .5" "7$").1 _ hnumber hstop).1⟩,
    ⟨hbehind, ((decided_is_final "(1 2 " "3").2 _ hunclosed hbehind).1⟩,
    hbehindDot, ((decided_is_final "1+.." "5").2 _ hdot hbehindDot).1⟩

end Reckoner
