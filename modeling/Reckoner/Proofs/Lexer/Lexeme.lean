import Reckoner.Proofs.Lexer.Scanner
import Reckoner.Proofs.Literal.Longest

/-!
# Lexemes

What the scanner finds, said by what can be found.

A lexeme is a token that covers some characters and is no blank: a parenthesis, an
operator, or a number whose text is a literal. `Token.LongestAt` says that a
lexeme stands at the front of a text and that none that stands there is longer. There
is at most one such lexeme, and the scanner finds it if there is one and
complains about the character in front of it if there is none (`scan_solid`).

The scanner does not compare lengths across the kinds of lexemes. It asks for
parentheses first, then for literals, then for operators. That comes to the same
because the first character of a lexeme tells its kind, so of the kinds there is
never more than one to choose from. Where a letter stands there is none
(`not_front_of_isAlpha`). Within a kind the longest is taken, of literals by being greedy
and of operators by comparing.

Every operator begins with a character that is an operator by itself. So where an operator
could begin one does, and it cannot be incomplete.

## Main definitions

* `Token.IsLexeme`: The tokens that cover characters, blanks apart.
* `Token.LongestAt`: The longest lexeme at the front of a text.

## Theorems

* `Operator.longestPrefix?_eq_some`, `Operator.longestPrefix?_eq_none`: The operator
  that is found is the longest.
* `Operator.glyphs_singleton_of_startsWith`: Where an operator could begin one does.
* `not_front_of_isAlpha`: No lexeme begins with a letter.
* `LongestAt.unique`: There is one longest lexeme.
* `scan_solid`: The scanner finds the longest lexeme, or there is none.
* `scan_eq_ok_iff_longestAt`: The same, by the token that is found.
* `scan_ne_incompleteOperator`: No operator is incomplete.
-/

namespace Reckoner

namespace Operator

theorem glyphs_injective {op op' : Operator} (h : op.glyphs = op'.glyphs) : op = op' := by
  cases op with
  | _ => cases op' with
    | _ => first | rfl | exact absurd h (by decide)

theorem longestPrefix?_eq_some {text : List Char} {op : Operator}
    (h : longestPrefix? text = some op) :
    op.glyphs <+: text ∧
      ∀ op' : Operator, op'.glyphs <+: text → op'.glyphs.length ≤ op.glyphs.length := by
  constructor
  · have hmem := List.maxOn?_mem h
    rw [List.mem_filter] at hmem
    exact List.isPrefixOf_iff_prefix.mp hmem.2
  · intro op' hop'
    have hmem : op' ∈ all.filter (·.glyphs.isPrefixOf text) :=
      List.mem_filter.mpr ⟨op'.mem_all, List.isPrefixOf_iff_prefix.mpr hop'⟩
    have hle := List.le_apply_get_maxOn?_of_mem (f := fun op : Operator => op.glyphs.length) hmem
    have hget : ((all.filter (·.glyphs.isPrefixOf text)).maxOn? (·.glyphs.length)).get
        (List.isSome_maxOn?_of_mem hmem) = op := by
      exact Option.get_of_eq_some _ h
    rw [hget] at hle
    exact hle

theorem longestPrefix?_eq_none {text : List Char} (h : longestPrefix? text = none)
    (op : Operator) : ¬op.glyphs <+: text := by
  intro hop
  have hmem : op ∈ all.filter (·.glyphs.isPrefixOf text) :=
    List.mem_filter.mpr ⟨op.mem_all, List.isPrefixOf_iff_prefix.mpr hop⟩
  have hsome := List.isSome_maxOn?_of_mem (f := fun op : Operator => op.glyphs.length) hmem
  rw [longestPrefix?] at h
  rw [h] at hsome
  exact absurd hsome Bool.false_ne_true

/-- A character that an operator begins with is an operator. -/
theorem glyphs_singleton_of_startsWith {c : Char} (h : startsWith c = true) :
    ∃ op : Operator, op.glyphs = [c] := by
  rcases List.any_eq_true.mp h with ⟨op, -, hop⟩
  rw [beq_iff_eq] at hop
  cases op with
  | power => exact ⟨.multiply, by rw [← Option.some.inj hop]; rfl⟩
  | divide => exact ⟨.divide, by rw [← Option.some.inj hop]; rfl⟩
  | multiply => exact ⟨.multiply, by rw [← Option.some.inj hop]; rfl⟩
  | subtract => exact ⟨.subtract, by rw [← Option.some.inj hop]; rfl⟩
  | add => exact ⟨.add, by rw [← Option.some.inj hop]; rfl⟩
  | root => exact ⟨.root, by rw [← Option.some.inj hop]; rfl⟩
  | remainder => exact ⟨.remainder, by rw [← Option.some.inj hop]; rfl⟩

end Operator

namespace Token

/-- The tokens that cover characters, blanks apart. -/
def IsLexeme : Token → Prop
  | openParen | closeParen | operator _ => True
  | number literal => Literal.IsLiteral literal.toList
  | blank _ | endOfInput => False

instance : DecidablePred IsLexeme
  | openParen | closeParen | operator _ => inferInstanceAs (Decidable True)
  | number literal => inferInstanceAs (Decidable (Literal.IsLiteral literal.toList))
  | blank _ | endOfInput => inferInstanceAs (Decidable False)

/-- The longest lexeme at the front of a text. -/
structure LongestAt (t : Token) (text : List Char) : Prop where
  lexeme : t.IsLexeme
  front : t.spelling <+: text
  longest : ∀ t' : Token, t'.IsLexeme → t'.spelling <+: text → t'.width ≤ t.width

end Token

section Kinds

variable {c : Char} {rest : List Char}

-- The first character of a lexeme tells its kind.
theorem head_of_literal_front {literal : List Char} (h : Literal.IsLiteral literal)
    (hp : literal <+: c :: rest) : c.isDigit = true ∨ c = '.' := by
  rcases Literal.head_of_isLiteral h with ⟨c', text, rfl, hc'⟩
  rw [← (List.cons_prefix_cons.mp hp).1]
  exact hc'

theorem head_of_operator_front {op : Operator} (hp : op.glyphs <+: c :: rest) :
    c ≠ '(' ∧ c ≠ ')' ∧ c.isDigit = false ∧ c ≠ '.' := by
  cases op with
  | _ =>
      rw [← (List.cons_prefix_cons.mp hp).1]
      decide

theorem eq_openParen_of_front {t : Token} (h : t.IsLexeme) (hp : t.spelling <+: '(' :: rest) :
    t = .openParen := by
  cases t with
  | openParen => rfl
  | closeParen => exact absurd (List.cons_prefix_cons.mp hp).1 (by decide)
  | operator op => exact absurd rfl (head_of_operator_front hp).1
  | number literal => exact absurd (head_of_literal_front h hp) (by decide)
  | blank c => exact h.elim
  | endOfInput => exact h.elim

theorem eq_closeParen_of_front {t : Token} (h : t.IsLexeme) (hp : t.spelling <+: ')' :: rest) :
    t = .closeParen := by
  cases t with
  | openParen => exact absurd (List.cons_prefix_cons.mp hp).1 (by decide)
  | closeParen => rfl
  | operator op => exact absurd rfl (head_of_operator_front hp).2.1
  | number literal => exact absurd (head_of_literal_front h hp) (by decide)
  | blank c => exact h.elim
  | endOfInput => exact h.elim

-- What stands before anything but a parenthesis is a literal or an operator.
theorem literal_or_operator_of_front {t : Token} (hopen : c ≠ '(') (hclose : c ≠ ')')
    (h : t.IsLexeme) (hp : t.spelling <+: c :: rest) :
    (∃ literal, t = .number literal ∧ Literal.IsLiteral literal.toList ∧
        literal.toList <+: c :: rest) ∨
      ∃ op : Operator, t = .operator op ∧ op.glyphs <+: c :: rest := by
  cases t with
  | openParen => exact absurd (List.cons_prefix_cons.mp hp).1.symm hopen
  | closeParen => exact absurd (List.cons_prefix_cons.mp hp).1.symm hclose
  | operator op => exact Or.inr ⟨op, rfl, hp⟩
  | number literal => exact Or.inl ⟨literal, rfl, h, hp⟩
  | blank c => exact h.elim
  | endOfInput => exact h.elim

end Kinds

section Letters

variable {c : Char} (hc : c.isAlpha = true)
include hc

-- The code points of letters.
theorem toNat_of_isAlpha : (65 ≤ c.toNat ∧ c.toNat ≤ 90) ∨ 97 ≤ c.toNat ∧ c.toNat ≤ 122 := by
  rcases Bool.or_eq_true_iff.mp hc with hupper | hlower
  · exact Or.inl (of_decide_eq_true hupper)
  · rcases Bool.and_eq_true_iff.mp hlower with ⟨hleft, hright⟩
    exact Or.inr ⟨of_decide_eq_true hleft, of_decide_eq_true hright⟩

theorem not_isDigit_of_isAlpha : c.isDigit = false := by
  have hletter := toNat_of_isAlpha hc
  rw [Bool.eq_false_iff]
  intro hdigit
  have hbound : c.toNat ≤ 57 := of_decide_eq_true (Bool.and_eq_true_iff.mp hdigit).2
  omega

theorem isBlank_of_isAlpha : isBlank c = false := by
  have hletter := toNat_of_isAlpha hc
  exact isBlank_of_visible (by omega)

/-- No lexeme begins with a letter. -/
theorem not_front_of_isAlpha {behind : List Char} (t : Token) (h : t.IsLexeme) :
    ¬t.spelling <+: c :: behind := by
  intro hfront
  cases t with
  | openParen =>
      rw [← (List.cons_prefix_cons.mp hfront).1] at hc
      exact absurd hc (by decide)
  | closeParen =>
      rw [← (List.cons_prefix_cons.mp hfront).1] at hc
      exact absurd hc (by decide)
  | operator op =>
      cases op with
      | _ =>
          rw [← (List.cons_prefix_cons.mp hfront).1] at hc
          exact absurd hc (by decide)
  | number literal =>
      rcases head_of_literal_front h hfront with hdigit | rfl
      · rw [not_isDigit_of_isAlpha hc] at hdigit
        exact absurd hdigit Bool.false_ne_true
      · exact absurd hc (by decide)
  | blank c => exact h.elim
  | endOfInput => exact h.elim

end Letters

-- No operator is spelled like a literal.
theorem glyphs_ne_literal (op : Operator) {literal : List Char} (h : Literal.IsLiteral literal) :
    op.glyphs ≠ literal := by
  rcases Literal.head_of_isLiteral h with ⟨c, text, rfl, hc⟩
  intro hsame
  have hfront : op.glyphs <+: c :: text := ⟨[], by rw [List.append_nil, hsame]⟩
  have hop := head_of_operator_front hfront
  rcases hc with hc | hc
  · exact absurd (hc.symm.trans hop.2.2.1) Bool.noConfusion
  · exact hop.2.2.2 hc

/-- Lexemes with the same spelling are the same. -/
theorem eq_of_spelling_eq {t t' : Token} (h : t.IsLexeme) (h' : t'.IsLexeme)
    (hsame : t.spelling = t'.spelling) : t = t' := by
  -- Each of them stands at the front of the spelling of the other.
  have hfront : t.spelling <+: t'.spelling := ⟨[], by rw [List.append_nil, hsame]⟩
  have hfront' : t'.spelling <+: t.spelling := ⟨[], by rw [List.append_nil, hsame]⟩
  cases t with
  | openParen => exact (eq_openParen_of_front h' hfront').symm
  | closeParen => exact (eq_closeParen_of_front h' hfront').symm
  | operator op =>
      cases t' with
      | openParen => exact eq_openParen_of_front h hfront
      | closeParen => exact eq_closeParen_of_front h hfront
      | operator op' => rw [Operator.glyphs_injective hsame]
      | number literal => exact absurd hsame (glyphs_ne_literal op h')
      | blank c => exact h'.elim
      | endOfInput => exact h'.elim
  | number literal =>
      cases t' with
      | openParen => exact eq_openParen_of_front h hfront
      | closeParen => exact eq_closeParen_of_front h hfront
      | operator op => exact absurd hsame.symm (glyphs_ne_literal op h)
      | number literal' => rw [String.toList_injective hsame]
      | blank c => exact h'.elim
      | endOfInput => exact h'.elim
  | blank c => exact h.elim
  | endOfInput => exact h.elim

/-- There is one longest lexeme. -/
theorem Token.LongestAt.unique {t t' : Token} {text : List Char} (h : t.LongestAt text)
    (h' : t'.LongestAt text) : t = t' := by
  refine eq_of_spelling_eq h.lexeme h'.lexeme ?_
  have hle : t.width ≤ t'.width := h'.longest t h.lexeme h.front
  have hle' : t'.width ≤ t.width := h.longest t' h'.lexeme h'.front
  exact (List.prefix_of_prefix_length_le h.front h'.front hle).eq_of_length_le hle'

section Scanning

variable {c : Char} {rest : List Char}

-- Where no literal and no operator stands the character begins no lexeme.
theorem startsWith_eq_false (h : Operator.longestPrefix? (c :: rest) = none) :
    Operator.startsWith c = false := by
  rw [Bool.eq_false_iff]
  intro hstarts
  rcases Operator.glyphs_singleton_of_startsWith hstarts with ⟨op, hop⟩
  refine Operator.longestPrefix?_eq_none h op ?_
  rw [hop]
  exact List.cons_prefix_cons.mpr ⟨rfl, List.nil_prefix⟩

/-- At anything but a blank the scanner finds the longest lexeme, or there is none and
    it complains about the character that it stands at. -/
theorem scan_solid (position : Nat) (hc : isBlank c = false) :
    (∃ t : Token, t.LongestAt (c :: rest) ∧ Token.scan position (c :: rest) = .ok t) ∨
      (∀ t : Token, t.IsLexeme → ¬t.spelling <+: c :: rest) ∧
        Token.scan position (c :: rest) = .error (.unrecognizedCharacter c position) := by
  have hblank : ¬isBlank c = true := by
    rw [hc]
    exact Bool.false_ne_true
  by_cases hopen : c = '('
  · subst hopen
    refine Or.inl ⟨.openParen, ⟨trivial, ⟨rest, rfl⟩, fun t' h hp => ?_⟩, rfl⟩
    exact Nat.le_of_eq (congrArg Token.width (eq_openParen_of_front h hp))
  by_cases hclose : c = ')'
  · subst hclose
    refine Or.inl ⟨.closeParen, ⟨trivial, ⟨rest, rfl⟩, fun t' h hp => ?_⟩, rfl⟩
    exact Nat.le_of_eq (congrArg Token.width (eq_closeParen_of_front h hp))
  rcases hliteral : Literal.longestPrefix? (c :: rest) with _ | literal
  · have hnone := Literal.longestPrefix?_eq_none_iff.mp hliteral
    rcases hoperator : Operator.longestPrefix? (c :: rest) with _ | op
    · -- Neither kind stands here.
      refine Or.inr ⟨fun t h hp => ?_, ?_⟩
      · rcases literal_or_operator_of_front hopen hclose h hp with
          ⟨literal, -, hform, hfront⟩ | ⟨op, -, hfront⟩
        · exact hnone _ hform hfront
        · exact Operator.longestPrefix?_eq_none hoperator op hfront
      · simp only [Token.scan, hblank, hopen, hclose, hliteral, hoperator,
          startsWith_eq_false hoperator, if_false, Bool.false_eq_true]
    · rcases Operator.longestPrefix?_eq_some hoperator with ⟨hfront, hlongest⟩
      refine Or.inl ⟨.operator op, ⟨trivial, hfront, fun t' h hp => ?_⟩, ?_⟩
      · rcases literal_or_operator_of_front hopen hclose h hp with
          ⟨literal, -, hform, hfront'⟩ | ⟨op', rfl, hfront'⟩
        · exact absurd hfront' (hnone _ hform)
        · exact hlongest op' hfront'
      · simp only [Token.scan, hblank, hopen, hclose, hliteral, hoperator, if_false,
          Bool.false_eq_true]
  · rcases Literal.longestPrefix?_eq_some_iff.mp hliteral with ⟨hform, hfront, hlongest⟩
    have hspelling : (Token.number (String.ofList literal)).spelling = literal :=
      String.toList_ofList
    refine Or.inl ⟨.number (String.ofList literal), ⟨?_, ?_, fun t' h hp => ?_⟩, ?_⟩
    · rw [Token.IsLexeme, String.toList_ofList]
      exact hform
    · rw [hspelling]
      exact hfront
    · rw [Token.width, Token.width, hspelling]
      rcases literal_or_operator_of_front hopen hclose h hp with
        ⟨literal', rfl, hform', hfront'⟩ | ⟨op, rfl, hfront'⟩
      · exact hlongest _ hform' hfront'
      · -- A literal stands here, so no operator does.
        have hhead := head_of_operator_front hfront'
        rcases head_of_literal_front hform hfront with hdigit | hdot
        · exact absurd (hdigit.symm.trans hhead.2.2.1) Bool.noConfusion
        · exact absurd hdot hhead.2.2.2
    · simp only [Token.scan, hblank, hopen, hclose, hliteral, if_false, Bool.false_eq_true]

/-- The lexeme that is found is the longest one, and the longest one is found. -/
theorem scan_eq_ok_iff_longestAt (position : Nat) (hc : isBlank c = false) {t : Token} :
    Token.scan position (c :: rest) = .ok t ↔ t.LongestAt (c :: rest) := by
  rcases scan_solid position hc with ⟨t', hlongest, hscan⟩ | ⟨hnone, hscan⟩
  · rw [hscan, Except.ok.injEq]
    constructor
    · rintro rfl
      exact hlongest
    · exact hlongest.unique
  · rw [hscan]
    constructor
    · intro h
      cases h
    · intro h
      exact absurd h.front (hnone t h.lexeme)

/-- No operator is incomplete. -/
theorem scan_ne_incompleteOperator (position : Nat) (text : List Char) (place : Nat) :
    Token.scan position text ≠ .error (.incompleteOperator place) := by
  intro h
  cases text with
  | nil => cases h
  | cons c rest =>
      by_cases hc : isBlank c = true
      · rw [Token.scan, if_pos hc] at h
        cases h
      · rw [Bool.not_eq_true] at hc
        rcases scan_solid position hc with ⟨t, -, hscan⟩ | ⟨-, hscan⟩
        · rw [hscan] at h
          cases h
        · rw [hscan, Except.error.injEq] at h
          cases h

end Scanning

end Reckoner
