import Reckoner.Proofs.Lexer.Lossless
import Reckoner.Proofs.Lexer.Tokenization

/-!
# Joined Texts

The tokens of a text to which further text is joined.

What a token is depends on what stands behind it, so the tokens of two texts
are not in general the tokens of the texts joined together: `1` and `2` are `12`. But
the scanner never looks further than one character behind a token. If a lexeme could be made
longer at all, it could be made longer by one character (`exists_isLexeme_concat`), and
so whether it is the longest is decided by the character behind it
(`LongestAt.append_cons`). Within a text every token but the last has that character
in view, if not a token then a blank. So of all tokens only the last can be affected by
what is joined to the text, and only if nothing stands behind it
(`Tokenizes.extend`).

What the last token is affected in is its length. It is found in the longer text too or
gives way to a longer one (`exists_foundBefore`), which is of the same kind if it is no
operator (`Tokenizes.append_of_not_operator`). And where no token begins none comes to
begin there, if only one character stands behind it (`not_front_append`).

## Main definitions

* `Token.EndsBefore`: A token cannot go on with this text.
* `Token.FoundBefore`: A token is found where it stands before this text.

## Theorems

* `LongestAt.append_cons`: One character behind a lexeme decides.
* `isLexeme_of_scan`: The tokens that are found are lexemes.
* `scan_of_endsBefore`: A lexeme is found before what it cannot go on with.
* `Tokenizes.exists_front`, `Tokenizes.replaceRest`: The rest behind the tokens of a text
  can be exchanged.
* `Tokenizes.extend`, `Tokenizes.append_behind`: The tokens of a text before further text.
* `exists_foundBefore`: Where a lexeme stands a token is found.
* `not_front_append`: One character behind a character decides whether it begins a token.
* `Tokenizes.append_of_not_operator`: A token that is no operator does not become one.
-/

namespace Reckoner

namespace Token

/-- A token cannot go on with this text. -/
def EndsBefore : Token → List Char → Prop
  | number _, rest => Literal.EndsBefore rest
  | operator op, rest => op = .multiply → rest.head? ≠ some '*'
  | _, _ => True

theorem head_of_isLexeme {t : Token} (h : t.IsLexeme) :
    ∃ c rest, t.spelling = c :: rest ∧ isBlank c = false := by
  cases t with
  | openParen => exact ⟨'(', [], rfl, rfl⟩
  | closeParen => exact ⟨')', [], rfl, rfl⟩
  | operator op =>
      cases op with
      | _ => exact ⟨_, _, rfl, by decide⟩
  | number literal =>
      rcases Literal.head_of_isLiteral h with ⟨c, rest, hspelling, hdigit | rfl⟩
      · exact ⟨c, rest, hspelling, Literal.isBlank_of_isDigit hdigit⟩
      · exact ⟨'.', rest, hspelling, by decide⟩
  | blank c => exact h.elim
  | endOfInput => exact h.elim

-- A lexeme that goes on behind some character is the last in a row of lexemes, of which
-- each is one character longer than the one before.
theorem exists_isLexeme_concat {t : Token} {front behind : List Char} {c : Char}
    (h : t.IsLexeme) (hspelling : t.spelling = front ++ c :: behind) (hne : front ≠ []) :
    ∃ t' : Token, t'.IsLexeme ∧ t'.spelling = front ++ [c] := by
  have hpos : 0 < front.length := List.length_pos_iff.mpr hne
  have hwidth := congrArg List.length hspelling
  rw [List.length_append, List.length_cons] at hwidth
  cases t with
  | openParen => rw [spelling, List.length_singleton] at hwidth; omega
  | closeParen => rw [spelling, List.length_singleton] at hwidth; omega
  | operator op =>
      -- Operators have two characters at most, so this is all of it.
      have hshort : op.glyphs.length ≤ 2 := by
        cases op with
        | _ => decide
      have hbehind : behind = [] := by
        rw [spelling] at hwidth
        exact List.length_eq_zero_iff.mp (by omega)
      exact ⟨.operator op, h, by rw [hspelling, hbehind]⟩
  | number literal =>
      refine ⟨.number (String.ofList (front ++ [c])), ?_, String.toList_ofList⟩
      rw [IsLexeme, String.toList_ofList]
      rw [IsLexeme, show literal.toList = front ++ c :: behind from hspelling] at h
      exact Literal.isLiteral_concat hne h
  | blank c => exact h.elim
  | endOfInput => exact h.elim

/-- Whether a lexeme is the longest one is decided by the one character behind it. -/
theorem LongestAt.append_cons {t : Token} {c : Char} {text : List Char}
    (h : t.LongestAt (t.spelling ++ c :: text)) (text' : List Char) :
    t.LongestAt (t.spelling ++ c :: text') := by
  refine ⟨h.lexeme, List.prefix_append _ _, fun t' h' hfront => ?_⟩
  rcases List.prefix_or_prefix_of_prefix hfront (List.prefix_append t.spelling _) with
    hinside | ⟨behind, hspelling⟩
  · exact hinside.length_le
  · rw [← hspelling, List.prefix_append_right_inj, List.prefix_cons_iff] at hfront
    rcases hfront with rfl | ⟨behind', rfl, -⟩
    · rw [List.append_nil] at hspelling
      exact Nat.le_of_eq (congrArg List.length hspelling.symm)
    · -- Then a longer lexeme would stand in the other text too.
      rcases head_of_isLexeme h.lexeme with ⟨c', rest, hhead, -⟩
      have hne : t.spelling ≠ [] := by
        rw [hhead]
        exact List.cons_ne_nil _ _
      rcases exists_isLexeme_concat h' hspelling.symm hne with ⟨longer, hlexeme, hlonger⟩
      have hle := h.longest longer hlexeme (by
        rw [hlonger, List.prefix_append_right_inj]
        exact ⟨text, rfl⟩)
      rw [width, width, hlonger, List.length_append, List.length_singleton] at hle
      omega

end Token

theorem scan_spelling_iff {t : Token} {text : List Char} (h : t.IsLexeme) (position : Nat) :
    Token.scan position (t.spelling ++ text) = .ok t ↔ t.LongestAt (t.spelling ++ text) := by
  rcases Token.head_of_isLexeme h with ⟨c, rest, hhead, hblank⟩
  rw [hhead, List.cons_append]
  exact scan_eq_ok_iff_longestAt position hblank

/-- The tokens that are found are lexemes, blanks and the end apart. -/
theorem isLexeme_of_scan {t : Token} {text : List Char} {position : Nat}
    (h : Token.scan position text = .ok t) (ht : t.isSolid = true) : t.IsLexeme := by
  cases text with
  | nil =>
      rw [← Except.ok.inj h] at ht
      exact absurd ht Bool.false_ne_true
  | cons c rest =>
      by_cases hc : isBlank c = true
      · rw [Token.scan, if_pos hc, Except.ok.injEq] at h
        rw [← h] at ht
        exact absurd ht Bool.false_ne_true
      · rw [Bool.not_eq_true] at hc
        exact ((scan_eq_ok_iff_longestAt position hc).mp h).lexeme

/-- A lexeme is found before what it cannot go on with. -/
theorem scan_of_endsBefore {t : Token} {rest : List Char} (h : t.IsLexeme)
    (hrest : t.EndsBefore rest) (position : Nat) :
    Token.scan position (t.spelling ++ rest) = .ok t := by
  cases t with
  | openParen => rfl
  | closeParen => rfl
  | operator op => exact scan_operator hrest
  | number literal =>
      have hscan := @scan_number position rest literal.toList h hrest
      rw [String.ofList_toList] at hscan
      exact hscan
  | blank c => exact h.elim
  | endOfInput => exact h.elim

/-- A token is found where it stands before this text. -/
structure Token.FoundBefore (t : Token) (rest : List Char) : Prop where
  solid : t.isSolid = true
  scan : ∀ position, Token.scan position (t.spelling ++ rest) = .ok t

namespace Token.FoundBefore

variable {t : Token} {rest : List Char}

theorem isLexeme (h : t.FoundBefore rest) : t.IsLexeme :=
  isLexeme_of_scan (h.scan 0) h.solid

theorem of_endsBefore (h : t.IsLexeme) (hrest : t.EndsBefore rest) : t.FoundBefore rest :=
  ⟨Lexer.isSolid_of_isLexeme h, scan_of_endsBefore h hrest⟩

theorem of_longestAt (h : t.LongestAt (t.spelling ++ rest)) : t.FoundBefore rest :=
  ⟨Lexer.isSolid_of_isLexeme h.lexeme, fun position =>
    (scan_spelling_iff h.lexeme position).mpr h⟩

-- The one character behind a token decides.
theorem cons {c : Char} (h : t.FoundBefore (c :: rest)) (rest' : List Char) :
    t.FoundBefore (c :: rest') := by
  refine ⟨h.solid, fun position => ?_⟩
  rw [scan_spelling_iff h.isLexeme]
  exact ((scan_spelling_iff h.isLexeme position).mp (h.scan position)).append_cons rest'

theorem spelling_ne_nil (h : t.FoundBefore rest) : t.spelling ≠ [] := by
  rcases head_of_isLexeme h.isLexeme with ⟨c, behind, hhead, -⟩
  rw [hhead]
  exact List.cons_ne_nil _ _

end Token.FoundBefore

namespace Tokenizes

/-- The rest behind the tokens of a text can be exchanged, unless the last token is no longer found
    before it. -/
theorem exists_front {text rest : List Char} {w : List Token} (h : Tokenizes text w rest) :
    ∃ front : List Char, text = front ++ rest ∧ (front = [] → w = []) ∧
      ∀ rest' : List Char, (∀ t ∈ w.getLast?, t.FoundBefore rest → t.FoundBefore rest') →
        Tokenizes (front ++ rest') w rest' := by
  induction h with
  | done rest => exact ⟨[], rfl, fun _ => rfl, fun rest' _ => .done rest'⟩
  | @blank c _ _ _ hc _ ih =>
      rcases ih with ⟨front, rfl, -, hreplace⟩
      exact ⟨c :: front, rfl, nofun, fun rest' hlast => .blank hc (hreplace rest' hlast)⟩
  | @token t _ rest w ht hscan _ ih =>
      rcases ih with ⟨front, rfl, hempty, hreplace⟩
      have hfound : t.FoundBefore (front ++ rest) := ⟨ht, hscan⟩
      refine ⟨t.spelling ++ front, (List.append_assoc _ _ _).symm, fun hnil => ?_,
        fun rest' hlast => ?_⟩
      · exact absurd (List.append_eq_nil_iff.mp hnil).1 hfound.spelling_ne_nil
      · have hbehind : Tokenizes (front ++ rest') w rest' := by
          refine hreplace rest' fun z hz => hlast z ?_
          rw [Option.mem_def] at hz ⊢
          rw [List.getLast?_cons, hz, Option.getD_some]
        have hfound' : t.FoundBefore (front ++ rest') := by
          rcases front with _ | ⟨c, front⟩
          · -- Nothing stands between the token and the rest, so it is the last one.
            rw [hempty rfl] at hlast
            exact hlast t rfl hfound
          · exact hfound.cons _
        rw [List.append_assoc]
        exact .token ht hfound'.scan hbehind

theorem replaceRest {front rest rest' : List Char} {w : List Token}
    (h : Tokenizes (front ++ rest) w rest)
    (hlast : ∀ t ∈ w.getLast?, t.FoundBefore rest → t.FoundBefore rest') :
    Tokenizes (front ++ rest') w rest' := by
  rcases h.exists_front with ⟨front', hfront, -, hreplace⟩
  rw [List.append_cancel_right hfront]
  exact hreplace rest' hlast

/-- The tokens of a text are found before further text too, unless that goes on with the
    last one. -/
theorem extend {text rest : List Char} {w : List Token} (h : Tokenizes text w [])
    (hlast : ∀ t ∈ w.getLast?, t.EndsBefore rest) : Tokenizes (text ++ rest) w rest := by
  rw [← List.append_nil text] at h
  exact h.replaceRest fun t ht hfound => .of_endsBefore hfound.isLexeme (hlast t ht)

-- The tokens of a text before a rest that is not empty are found in a longer text too.
theorem append_behind {text rest : List Char} {w : List Token} {c : Char}
    (h : Tokenizes text w (c :: rest)) (further : List Char) :
    Tokenizes (text ++ further) w (c :: rest ++ further) := by
  rcases h.exists_front with ⟨front, rfl, -, hreplace⟩
  rw [List.append_assoc]
  exact hreplace _ fun t _ hfound => hfound.cons _

-- Blanks in front of a text are no tokens.
theorem blanks {front text rest : List Char} {w : List Token}
    (hfront : ∀ c ∈ front, isBlank c = true) (h : Tokenizes text w rest) :
    Tokenizes (front ++ text) w rest := by
  induction front with
  | nil => exact h
  | cons c front ih =>
      exact .blank (hfront c List.mem_cons_self)
        (ih fun c' hc' => hfront c' (List.mem_cons_of_mem c hc'))

end Tokenizes

section Growing

variable {t : Token} {text rest : List Char}

/-- Where a lexeme stands a token is found, although it may be a longer one. -/
theorem exists_foundBefore (h : t.IsLexeme) (hfront : t.spelling <+: text) :
    ∃ (t' : Token) (rest : List Char), text = t'.spelling ++ rest ∧ t'.FoundBefore rest := by
  rcases Token.head_of_isLexeme h with ⟨c, behind, hhead, hblank⟩
  rcases hfront with ⟨rest, rfl⟩
  rw [hhead, List.cons_append]
  rcases @scan_solid c (behind ++ rest) 0 hblank with ⟨t', hlongest, -⟩ | ⟨hnone, -⟩
  · rcases hlongest.front with ⟨rest', hrest'⟩
    rw [← hrest'] at hlongest ⊢
    exact ⟨t', rest', rfl, .of_longestAt hlongest⟩
  · refine absurd ?_ (hnone t h)
    rw [hhead]
    exact ⟨rest, rfl⟩

-- Where a parenthesis or a number stands no operator stands.
theorem not_operator_of_front (h : t.IsLexeme) (hop : ∀ op, t ≠ .operator op)
    (hfront : t.spelling <+: text) (op : Operator) : ¬op.glyphs <+: text := by
  intro hglyphs
  rcases Token.head_of_isLexeme h with ⟨c, behind, hhead, -⟩
  rcases hfront with ⟨rest, rfl⟩
  rw [hhead, List.cons_append] at hglyphs
  have hc := head_of_operator_front hglyphs
  cases t with
  | openParen => exact hc.1 (List.cons.inj hhead).1.symm
  | closeParen => exact hc.2.1 (List.cons.inj hhead).1.symm
  | operator op' => exact hop op' rfl
  | number literal =>
      have hfront : literal.toList <+: c :: behind := ⟨[], by rw [List.append_nil]; exact hhead⟩
      rcases head_of_literal_front h hfront with hdigit | hdot
      · exact absurd (hdigit.symm.trans hc.2.2.1) Bool.noConfusion
      · exact hc.2.2.2 hdot
  | blank c => exact h.elim
  | endOfInput => exact h.elim

/-- The first token of a text is no operator in a longer text if it is none in this one. -/
theorem Tokenizes.append_of_not_operator (h : Tokenizes text [t] rest)
    (hop : ∀ op, t ≠ .operator op) (further : List Char) :
    ∃ (t' : Token) (rest' : List Char), Tokenizes (text ++ further) [t'] rest' ∧
      ∀ op, t' ≠ .operator op := by
  generalize hw : [t] = w at h
  induction h with
  | done => cases hw
  | blank hc _ ih =>
      rcases ih hw with ⟨t', rest', htokens, hop'⟩
      exact ⟨t', rest', .blank hc htokens, hop'⟩
  | @token t'' text _ _ ht hscan _ _ =>
      rw [← (List.cons.inj hw).1] at ht hscan ⊢
      have hlexeme := isLexeme_of_scan (hscan 0) ht
      have hfront : t.spelling <+: t.spelling ++ text ++ further :=
        ⟨text ++ further, (List.append_assoc _ _ _).symm⟩
      rcases exists_foundBefore hlexeme hfront with ⟨t', rest', htext, hfound⟩
      refine ⟨t', rest', ?_, fun op ht' => ?_⟩
      · rw [htext]
        exact .token hfound.solid hfound.scan (.done rest')
      · refine not_operator_of_front hlexeme hop hfront op ?_
        rw [htext, ht']
        exact List.prefix_append _ _

/-- Whether a character begins a token is decided by the one behind it. -/
theorem not_front_append {c c' : Char} {behind : List Char} (further : List Char)
    (h : ∀ t : Token, t.IsLexeme → ¬t.spelling <+: c :: c' :: behind) :
    ∀ t : Token, t.IsLexeme → ¬t.spelling <+: c :: c' :: (behind ++ further) := by
  intro t ht hfront
  rcases List.prefix_cons_iff.mp hfront with hnil | ⟨tail, htail, hbehind⟩
  · rcases Token.head_of_isLexeme ht with ⟨_, _, hhead, -⟩
    rw [hhead] at hnil
    cases hnil
  · rcases List.prefix_cons_iff.mp hbehind with rfl | ⟨tail', rfl, -⟩
    · exact h t ht (by rw [htail]; exact ⟨c' :: behind, rfl⟩)
    · rcases @Token.exists_isLexeme_concat t [c] tail' c' ht htail (List.cons_ne_nil _ _) with
        ⟨t', ht', hspelling⟩
      exact h t' ht' (by rw [hspelling]; exact ⟨behind, rfl⟩)

end Growing

end Reckoner
