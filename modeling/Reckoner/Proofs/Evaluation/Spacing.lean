import Reckoner.Proofs.Evaluation.Failures
import Reckoner.Proofs.Lexer.Boundaries
import Reckoner.Proofs.Parser.Complete
import Reckoner.Proofs.Parser.Verdict

/-!
# Spacing

That blanks between tokens make no difference, where they are put and where they are left
out.

Both are statements about two texts of which one is longer. The lexers that read them are
never in the same state, and what they have in common is the tokens they hand out. Where
the texts are cut into the same tokens before the same rest, the streams are equal but for
the place of a complaint, and what is read from a stream follows from the stream.
So it remains to cut the two texts.

Blanks may be put wherever the scanner comes to stand between two scans. The token in
front of them has been scanned already, and no token goes on with a blank. Leaving out
the blanks between two tokens is more delicate, since the first token then stands directly
before the second one and may go on with it. It does so only if both are numbers or if a
star meets a star (`MayMerge`).

## Main definitions

* `ParseError.raise`, `Error.raise`: The same error about a place further behind.
* `insertAt`, `deleteAt`: A text with more characters, and with fewer.
* `Token.MayMerge`: Two tokens that may be one if nothing stands between them.
* `ReadsRaised`: A text is read like another one up to the place of a complaint.

## Theorems

* `scan_raise_stream`, `parse_of_stream_raised`: What is read does not depend on the place.
* `ReadsRaised.of_tokenizes`: Texts with the same tokens are read alike.
* `endsBefore_blank`, `endsBefore_of_not_mayMerge`: Where a token ends.
* `blanks_insignificant`: Blanks between tokens make no difference.
-/

namespace Reckoner

/-- The same error, if it is a complaint of the scanner then about a place further behind. -/
def ParseError.raise (n : Nat) : ParseError → ParseError
  | lexical cause => lexical (cause.raise n)
  | cause => cause

/-- The same error, if it is a complaint of the scanner then about a place further behind. -/
def Error.raise (n : Nat) : Error → Error
  | parse cause => parse (cause.raise n)
  | eval cause => eval cause

/-- A text with further characters before the one at an index. -/
def insertAt (text : String) (index : Nat) (inserted : List Char) : String :=
  String.ofList (text.toList.take index ++ inserted ++ text.toList.drop index)

/-- A text without so many of the characters from an index on. -/
def deleteAt (text : String) (index count : Nat) : String :=
  String.ofList (text.toList.take index ++ text.toList.drop (index + count))

/-- Two tokens that may be one if nothing stands between them. -/
def Token.MayMerge : Token → Token → Prop
  | number _, number _ => True
  | operator .multiply, operator .multiply => True
  | operator .multiply, operator .power => True
  | _, _ => False

/-- A text is read like another one, up to the place that the scanner complains about, which is
    moved. -/
structure ReadsRaised (n : Nat) (source raised : String) : Prop where
  stream_eq : (Lexer.ofText raised).stream = (Lexer.ofText source).stream.raise n
  parse_eq : parse raised = (parse source).mapError (·.raise n)
  evaluate_eq : evaluate raised = (evaluate source).mapError (·.raise n)

/-- The scan of a stream does not depend on the place of the complaint at its end. -/
theorem scan_raise_stream (n : Nat) (s : TokenStream) (mode : Mode) (depth : Nat) :
    (s.raise n).scan mode depth
      = ((s.scan mode depth).1.mapError (·.raise n), (s.scan mode depth).2.raise n) := by
  induction s generalizing mode depth with
  | ending =>
      cases mode with
      | _ => cases depth with
        | _ => rfl
  | failing cause =>
      cases mode with
      | _ => cases depth with
        | _ => rfl
  | token t s ih =>
      rw [TokenStream.raise]
      rcases hstep : Mode.step (mode, depth) t with _ | ⟨mode', depth'⟩
      · rw [TokenStream.scan_of_refused hstep, TokenStream.scan_of_refused hstep]
        cases mode with
        | operand => rfl
        | after =>
            cases depth with
            | _ => rfl
      · rw [TokenStream.scan_of_step hstep, TokenStream.scan_of_step hstep, ih]

theorem Level.Splits.raise {level : Level} {s rest : TokenStream} {w : List Token} {e : Expr}
    (h : level.Splits s w e rest) (n : Nat) : level.Splits (s.raise n) w e (rest.raise n) where
  whole_eq := by rw [h.whole_eq, TokenStream.raise_append]
  derives := h.derives
  stops := fun hbinary => by
    rcases h.stops hbinary with ⟨t, hhead, hop⟩
    exact ⟨t, by rw [TokenStream.head_raise, hhead]; rfl, hop⟩

/-- What is read from a text does not depend on the place of the complaint that its tokens may
    end with. -/
theorem parse_of_stream_raised {source raised : String} {n : Nat}
    (h : (Lexer.ofText raised).stream = (Lexer.ofText source).stream.raise n) :
    parse raised = (parse source).mapError (·.raise n) := by
  rcases hparse : parse source with cause | tree
  · refine parse_eq_error_iff.mpr ?_
    rw [h, scan_raise_stream, parse_eq_error_iff.mp hparse]
    rfl
  · rcases parse_eq_ok_iff.mp hparse with ⟨e, w, rest, htree, hsplits⟩
    exact parse_eq_ok_iff.mpr ⟨e, w, rest.raise n, htree, h ▸ hsplits.raise n⟩

theorem evaluate_of_parse_raised {source raised : String} {n : Nat}
    (h : parse raised = (parse source).mapError (·.raise n)) :
    evaluate raised = (evaluate source).mapError (·.raise n) := by
  rw [evaluate_eq, evaluate_eq, h]
  rcases parse source with cause | tree
  · rfl
  · change tree.value.mapError .eval = (tree.value.mapError Error.eval).mapError (·.raise n)
    cases tree.value with
    | _ => rfl

/-- Texts that are cut into the same tokens before the same rest are read alike. -/
theorem ReadsRaised.of_tokenizes {source raised : String} {w : List Token} {rest : List Char}
    {n : Nat} (h : Tokenizes source.toList w rest) (h' : Tokenizes raised.toList w rest)
    (hlength : raised.toList.length = source.toList.length + n) : ReadsRaised n source raised := by
  have hstream := stream_of_tokenizes_raised h h' hlength
  have hparse := parse_of_stream_raised hstream
  exact ⟨hstream, hparse, evaluate_of_parse_raised hparse⟩

section Ends

variable {t t' : Token} {c : Char} {rest : List Char}

-- No token goes on with a blank.
theorem endsBefore_blank (t : Token) (hc : isBlank c = true) : t.EndsBefore (c :: rest) := by
  cases t with
  | number literal =>
      intro c' hc'
      rw [← Option.some.inj hc']
      refine ⟨?_, ?_⟩
      · rw [Bool.eq_false_iff]
        intro hdigit
        exact absurd (hc.symm.trans (Literal.isBlank_of_isDigit hdigit)) Bool.noConfusion
      · rintro rfl
        exact absurd hc (by decide)
  | operator op =>
      intro _ hstar
      rw [Option.some.inj hstar] at hc
      exact absurd hc (by decide)
  | _ => trivial

-- A token that is found before a text is found before blanks and the text.
theorem Token.FoundBefore.blanks {blanks : List Char} (hblanks : ∀ c ∈ blanks, isBlank c = true)
    (h : t.FoundBefore rest) : t.FoundBefore (blanks ++ rest) := by
  cases blanks with
  | nil => exact h
  | cons c blanks =>
      exact .of_endsBefore h.isLexeme (endsBefore_blank t (hblanks c List.mem_cons_self))

/-- A token ends before another one, unless both may be one. -/
theorem endsBefore_of_not_mayMerge (ht' : t'.IsLexeme) (h : ¬t.MayMerge t') :
    t.EndsBefore (t'.spelling ++ rest) := by
  cases t with
  | number literal =>
      cases t' with
      | openParen => exact fun c hc => by rw [← Option.some.inj hc]; decide
      | closeParen => exact fun c hc => by rw [← Option.some.inj hc]; decide
      | operator op => exact endsBefore_operator op rest
      | number literal' => exact absurd trivial h
      | blank c => exact ht'.elim
      | endOfInput => exact ht'.elim
  | operator op =>
      rintro rfl hstar
      cases t' with
      | openParen => exact absurd (Option.some.inj hstar) (by decide)
      | closeParen => exact absurd (Option.some.inj hstar) (by decide)
      | operator op =>
          cases op with
          | multiply => exact h trivial
          | power => exact h trivial
          | _ => exact absurd (Option.some.inj hstar) (by decide)
      | number literal =>
          rcases Literal.head_of_isLiteral ht' with ⟨c, digits, hspelling, hc⟩
          rw [Token.spelling, hspelling] at hstar
          rw [Option.some.inj hstar] at hc
          exact absurd hc (by decide)
      | blank c => exact ht'.elim
      | endOfInput => exact ht'.elim
  | _ => trivial

theorem Token.endsBefore_nil (t : Token) : t.EndsBefore [] := by
  cases t with
  | number literal => exact Literal.endsBefore_nil
  | operator op => exact fun _ => nofun
  | _ => trivial

end Ends

-- Blanks that are put where the scanner comes to stand.
theorem readsRaised_insertAt {source : String} {w : List Token} {l : Lexer} {blanks : List Char}
    (hscans : (Lexer.ofText source).Scans w l) (hblanks : ∀ c ∈ blanks, isBlank c = true) :
    ReadsRaised blanks.length source (insertAt source l.position blanks) := by
  rcases Lexer.exists_front_of_scans hscans with ⟨front, hfront, hplace⟩
  have htokens : Tokenizes (front ++ l.unread) (w.filter Token.isSolid) l.unread :=
    hfront ▸ hscans.tokenizes
  have hspaced : (insertAt source l.position blanks).toList = front ++ (blanks ++ l.unread) := by
    rw [insertAt, String.toList_ofList, hfront, ← hplace, List.take_left, List.drop_left,
      List.append_assoc]
  have htokens' : Tokenizes (front ++ (blanks ++ l.unread)) _ (blanks ++ l.unread) :=
    htokens.replaceRest fun t _ hfound => hfound.blanks hblanks
  have hspacedTokens := htokens'.append (.blanks hblanks (.done l.unread))
  rw [List.append_nil] at hspacedTokens
  refine .of_tokenizes (hfront ▸ htokens) (hspaced ▸ hspacedTokens) ?_
  rw [hspaced, hfront]
  simp only [List.length_append]
  omega

-- Blanks that are left out between two tokens. The first of them is the last token in front of the
-- blanks, unless it is the end, behind which there are none.
theorem readsRaised_deleteAt {source : String} {w : List Token} {t t' : Token}
    {blanks : List Char} {l l' : Lexer} (hscans : (Lexer.ofText source).Scans (w ++ [t]) l)
    (hbehind : l.Scans (blanks.map .blank ++ [t']) l') (ht : ∀ c, t ≠ .blank c)
    (ht' : ∀ c, t' ≠ .blank c) (hmerge : ¬t.MayMerge t') :
    ReadsRaised blanks.length (deleteAt source l.position blanks.length) source := by
  rcases hbehind.of_append with ⟨middle, hmiddle, hsecond⟩
  rcases hmiddle.blanks with ⟨hblanks, hunread⟩
  rcases Lexer.exists_front_of_scans hscans with ⟨front, hfront, hplace⟩
  have htokens := hscans.tokenizes
  change Tokenizes source.toList _ _ at htokens
  rw [hfront, hunread] at htokens
  have hends : t.EndsBefore middle.unread := by
    rcases Lexer.lex_ok_cases hsecond.of_singleton with
      ⟨-, hnil, -⟩ | ⟨c, hc, -⟩ | ⟨hfound, htext⟩
    · rw [hnil]
      exact t.endsBefore_nil
    · exact absurd hc (ht' c)
    · rw [htext]
      exact endsBefore_of_not_mayMerge hfound.isLexeme hmerge
  have hlast : ∀ z ∈ ((w ++ [t]).filter Token.isSolid).getLast?,
      z.FoundBefore (blanks ++ middle.unread) → z.FoundBefore middle.unread := by
    intro z hz hfoundZ
    rcases hscans.of_append with ⟨before, -, hfirst⟩
    rcases Lexer.lex_ok_cases hfirst.of_singleton with
      ⟨-, hnil, rfl⟩ | ⟨c, hc, -⟩ | ⟨hfound, -⟩
    · rw [hnil] at hunread
      rw [(List.append_eq_nil_iff.mp hunread.symm).1] at hfoundZ
      exact hfoundZ
    · exact absurd hc (ht c)
    · rw [List.filter_append, List.filter_cons_of_pos hfound.solid, List.getLast?_append] at hz
      cases hz
      exact .of_endsBefore hfound.isLexeme hends
  have hjoined : (deleteAt source l.position blanks.length).toList = front ++ middle.unread := by
    rw [deleteAt, String.toList_ofList, hfront, hunread, ← hplace, List.take_left,
      ← List.drop_drop, List.drop_left, List.drop_left]
  have hspaced := htokens.append (.blanks hblanks (.done middle.unread))
  rw [List.append_nil, ← hunread, ← hfront] at hspaced
  refine .of_tokenizes (hjoined ▸ htokens.replaceRest hlast) hspaced ?_
  rw [hjoined, hfront, hunread]
  simp only [List.length_append]
  omega

/-- Blanks between tokens make no difference. Let the scanner come to a place of a text, by any
    number of scans that find tokens.

    * With blanks put there, the text is read as before, and it has the same tokens, tree, value and
      error. Only the place that a complaint of the scanner names is raised by the number of
      blanks.
    * If the scanner has found a token in front of that place, and behind it finds blanks and then
      another token, the text is read as before with all of these blanks left out, unless the two
      tokens are two numbers, or a star and a token that begins with a star. -/
theorem blanks_insignificant :
    (∀ (source : String) (w : List Token) (l : Lexer) (blanks : List Char),
      (Lexer.ofText source).Scans w l → (∀ c ∈ blanks, isBlank c = true) →
        ReadsRaised blanks.length source (insertAt source l.position blanks)) ∧
      ∀ (source : String) (w : List Token) (t t' : Token) (blanks : List Char) (l l' : Lexer),
        (Lexer.ofText source).Scans (w ++ [t]) l → l.Scans (blanks.map .blank ++ [t']) l' →
          (∀ c, t ≠ .blank c) → (∀ c, t' ≠ .blank c) → ¬t.MayMerge t' →
            ReadsRaised blanks.length (deleteAt source l.position blanks.length) source :=
  ⟨fun _ _ _ _ => readsRaised_insertAt, fun _ _ _ _ _ _ _ => readsRaised_deleteAt⟩

/-- A tabulator and an ideographic space put in front of an operator, and the space between `**`
    and `*` left out. -/
theorem blanks_around_operators :
    ReadsRaised 2 "1+$" "1\t\u3000+$" ∧
      parse "1\t\u3000+$" = .error (.lexical (.unrecognizedCharacter '$' 4)) ∧
      ReadsRaised 1 "2 *** 3" "2 ** * 3" := by
  have hnumber : (Lexer.ofText "1+$").Scans [.number "1"] (Lexer.ofText "1+$").lex.2 :=
    .scan (by decide +kernel) (.done _)
  have hblanks : ∀ c ∈ ['\t', '\u3000'], isBlank c = true :=
    List.forall_mem_cons.mpr ⟨by decide, List.forall_mem_singleton.mpr (by decide)⟩
  have hinserted := blanks_insignificant.1 "1+$" _ _ ['\t', '\u3000'] hnumber hblanks
  have hspaced : insertAt "1+$" (Lexer.ofText "1+$").lex.2.position ['\t', '\u3000']
      = "1\t\u3000+$" := by
    decide +kernel
  have hcomplaint : parse "1+$" = .error (.lexical (.unrecognizedCharacter '$' 2)) := by
    refine parse_eq_error_iff.mpr ?_
    decide +kernel
  rw [hspaced] at hinserted
  refine ⟨hinserted, ?_, ?_⟩
  · rw [hinserted.parse_eq, hcomplaint]
    rfl
  · have hpower : (Lexer.ofText "2 ** * 3").Scans ([.number "2", .blank ' '] ++ [.operator .power])
        (Lexer.ofText "2 ** * 3").lex.2.lex.2.lex.2 :=
      .scan (Prod.ext (by decide +kernel) rfl) (.scan (Prod.ext (by decide +kernel) rfl)
        (.scan (by decide +kernel) (.done _)))
    have hmultiply : (Lexer.ofText "2 ** * 3").lex.2.lex.2.lex.2.Scans
        ([' '].map .blank ++ [.operator .multiply])
        (Lexer.ofText "2 ** * 3").lex.2.lex.2.lex.2.lex.2.lex.2 :=
      .scan (Prod.ext (by decide +kernel) rfl) (.scan (by decide +kernel) (.done _))
    have hdeleted := blanks_insignificant.2 "2 ** * 3" _ _ _ _ _ _ hpower hmultiply nofun nofun id
    have hjoined : deleteAt "2 ** * 3" (Lexer.ofText "2 ** * 3").lex.2.lex.2.lex.2.position 1
        = "2 *** 3" := by
      decide +kernel
    rw [List.length_singleton, hjoined] at hdeleted
    exact hdeleted

end Reckoner
