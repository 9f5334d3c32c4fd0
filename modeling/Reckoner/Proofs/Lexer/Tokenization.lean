import Reckoner.Proofs.Lexer.Stream
import Reckoner.Proofs.Literal.Form

/-!
# Tokenization of Texts

Texts and their tokens, with the lexer left out.

`Tokenizes text w rest` says that a text begins with the tokens `w` and that `rest`
stands behind them. A token is always found with everything behind it in view, so
a `*` in front of another one is not taken for a multiplication, and two
pieces of text can be put together only if the first was cut with the second in
view. That is what makes `Tokenizes.append` true without a condition.

A lexer that stands at a text with nothing queued hands out exactly these tokens
(`stream_of_tokenizes`). What is left to know of a piece of text is then how the
tokens in it are found, and where they could be mistaken: a number is cut off
before a digit or a dot, a multiplication before a star, and nothing else can go
wrong.

## Main definitions

* `Tokenizes`: A text begins with these tokens.

## Theorems

* `Tokenizes.append`: Tokens, and then further tokens.
* `stream_of_tokenizes`: A lexer at a text hands out its tokens.
* `scan_operator`, `scan_number`: How operators and numbers are found.
* `tokenizes_operator`, `tokenizes_number`: One token by itself.
* `isLiteral_of_scan`: The numbers that are found are literals.
* `isLiteral_of_mem_stream`: The numbers that are handed out are literals.
-/

namespace Reckoner

/-- A text begins with these tokens, blanks between them aside, and behind them stands
    the rest. -/
inductive Tokenizes : List Char → List Token → List Char → Prop
  | done (rest : List Char) : Tokenizes rest [] rest
  | blank {c : Char} {text rest : List Char} {w : List Token} (hc : isBlank c = true)
      (h : Tokenizes text w rest) : Tokenizes (c :: text) w rest
  | token {t : Token} {text rest : List Char} {w : List Token} (ht : t.isSolid = true)
      (hscan : ∀ position, Token.scan position (t.spelling ++ text) = .ok t)
      (h : Tokenizes text w rest) : Tokenizes (t.spelling ++ text) (t :: w) rest

/-- Tokens, and further tokens in the rest behind them. -/
theorem Tokenizes.append {text middle rest : List Char} {v w : List Token}
    (h : Tokenizes text v middle) (h' : Tokenizes middle w rest) :
    Tokenizes text (v ++ w) rest := by
  induction h with
  | done => exact h'
  | blank hc _ ih => exact .blank hc (ih h')
  | token ht hscan _ ih => exact .token ht hscan (ih h')

namespace Lexer

theorem skip_skip (m n : Nat) (l : Lexer) : (l.skip m).skip n = l.skip (m + n) := by
  simp only [skip, List.drop_drop, List.length_drop, mk.injEq, true_and, and_true]
  omega

theorem skip_one_unread {l : Lexer} {c : Char} {text : List Char}
    (hunread : l.unread = c :: text) : (l.skip 1).unread = text := by
  rw [skip, hunread]
  rfl

-- Skipping one blank and then the others is skipping all of them.
theorem skipBlanks_skip_one {l : Lexer} {c : Char} {text : List Char}
    (hunread : l.unread = c :: text) (hc : isBlank c = true) :
    (l.skip 1).skipBlanks = l.skipBlanks := by
  rw [skipBlanks, skip_one_unread hunread, skip_skip, skipBlanks, hunread,
    List.takeWhile_cons_of_pos hc, List.length_cons, Nat.add_comm]

-- With nothing queued, a blank in front of the scanner makes no difference to what is
-- consumed.
theorem next_skip_blank {l : Lexer} {c : Char} {text : List Char} (hqueue : l.queue = [])
    (hunread : l.unread = c :: text) (hc : isBlank c = true) : (l.skip 1).next = l.next := by
  have hlex : (l.skip 1).lexSolid = l.lexSolid := by
    rw [lexSolid, skipBlanks_skip_one hunread hc, lexSolid]
  have hqueue' : (l.skip 1).queue = [] := hqueue
  simp only [next, hqueue, hqueue', hlex]

-- With nothing queued, a token that stands in front of the scanner is consumed with the
-- characters that spell it.
theorem next_of_scan {l : Lexer} {t : Token} {text : List Char} (hqueue : l.queue = [])
    (hunread : l.unread = t.spelling ++ text) (ht : t.isSolid = true)
    (hscan : ∀ position, Token.scan position (t.spelling ++ text) = .ok t) :
    l.next = (.ok t, (l.take t).consumed t) := by
  have hblanks : l.skipBlanks = l := by
    refine skipBlanks_eq_self fun c hc => ?_
    rcases htext : t.spelling ++ text with _ | ⟨c', behind⟩
    · rw [hunread, htext] at hc
      cases hc
    · rw [hunread, htext] at hc
      have hfound := hscan l.position
      rw [htext] at hfound
      rw [Bool.eq_false_iff, ← Option.some.inj hc]
      intro hblank
      rw [Token.scan, if_pos hblank, Except.ok.injEq] at hfound
      rw [← hfound] at ht
      exact absurd ht Bool.false_ne_true
  refine next_of_lexSolid_ok hqueue ?_
  rw [lexSolid, hblanks, lex, hunread, hscan]

end Lexer

/-- A lexer that stands at a text with nothing queued hands out its tokens and comes to
    stand at the rest. -/
theorem stream_of_tokenizes {text rest : List Char} {w : List Token}
    (h : Tokenizes text w rest) (l : Lexer) (hqueue : l.queue = []) (hunread : l.unread = text) :
    ∃ l' : Lexer, l'.queue = [] ∧ l'.unread = rest ∧
      l'.position + rest.length = l.position + text.length ∧ l.stream = w ++ l'.stream := by
  induction h generalizing l with
  | done => exact ⟨l, hqueue, hunread, rfl, rfl⟩
  | @blank c text rest w hc _ ih =>
      have hsame := Lexer.next_skip_blank hqueue hunread hc
      rcases ih (l.skip 1) hqueue (Lexer.skip_one_unread hunread) with
        ⟨l', hqueue', hrest, hposition, hstream⟩
      refine ⟨l', hqueue', hrest, ?_, (Lexer.stream_congr hsame).symm.trans hstream⟩
      have hone : (l.skip 1).position = l.position + 1 := by
        rw [Lexer.skip, hunread, List.length_cons, Nat.min_eq_left (Nat.le_add_left 1 _)]
      rw [hposition, hone, List.length_cons]
      omega
  | @token t text rest w ht hscan _ ih =>
      have hnext := Lexer.next_of_scan hqueue hunread ht hscan
      have hbehind : ((l.take t).consumed t).unread = text := by
        change l.unread.drop t.spelling.length = text
        rw [hunread, List.drop_left]
      rcases ih ((l.take t).consumed t) hqueue hbehind with
        ⟨l', hqueue', hrest, hposition, hstream⟩
      refine ⟨l', hqueue', hrest, ?_, ?_⟩
      · have hwidth : ((l.take t).consumed t).position = l.position + t.spelling.length := by
          change l.position + min t.spelling.length l.unread.length = _
          rw [hunread, List.length_append, Nat.min_eq_left (Nat.le_add_right _ _)]
        rw [hposition, hwidth, List.length_append, Nat.add_assoc]
      · have hend : t.isEnd = false := by
          cases t with
          | endOfInput => exact absurd ht Bool.false_ne_true
          | _ => rfl
        rw [Lexer.stream_of_token (by rw [hnext]) hend, hnext, TokenStream.cons_append, hstream]

/-- A text that is nothing but tokens is handed out as them, and then the end. -/
theorem stream_ofText {text : String} {w : List Token} (h : Tokenizes text.toList w []) :
    (Lexer.ofText text).stream = w ++ TokenStream.ending := by
  rcases stream_of_tokenizes h (Lexer.ofText text) rfl rfl with
    ⟨l', hqueue, hunread, -, hstream⟩
  have hends : ∀ t ∈ l'.queue, t = .endOfInput := by
    intro t ht
    rw [hqueue] at ht
    exact absurd ht List.not_mem_nil
  rw [hstream, Lexer.stream_of_end (Lexer.next_of_ends hunread hends)]

section Finding

-- An operator is found where it stands, but a star only before something that is not
-- another star.
theorem operator_longestPrefix?_append {op : Operator} {rest : List Char}
    (h : op = .multiply → rest.head? ≠ some '*') :
    Operator.longestPrefix? (op.glyphs ++ rest) = some op := by
  cases op with
  | multiply =>
      cases rest with
      | nil => rfl
      | cons c rest =>
          have hc : ('*' == c) = false := by
            rw [beq_eq_false_iff_ne]
            rintro rfl
            exact h rfl rfl
          have hpower : Operator.power.glyphs.isPrefixOf ('*' :: c :: rest) = false := by
            simp only [Operator.glyphs, List.isPrefixOf, hc, Bool.false_and, Bool.and_false]
          have hfound : Operator.all.filter (·.glyphs.isPrefixOf ('*' :: c :: rest))
              = [.multiply] := by
            simp only [Operator.all, List.filter_cons, hpower]
            rfl
          change (Operator.all.filter (·.glyphs.isPrefixOf ('*' :: c :: rest))).maxOn? _ = _
          rw [hfound]
          rfl
  | _ => rfl

variable {position : Nat} {rest : List Char}

theorem scan_operator {op : Operator} (h : op = .multiply → rest.head? ≠ some '*') :
    Token.scan position (op.glyphs ++ rest) = .ok (.operator op) := by
  have hfound := operator_longestPrefix?_append h
  cases op with
  | _ =>
      simp only [Operator.glyphs, List.cons_append, List.nil_append] at hfound ⊢
      simp only [Token.scan, hfound]
      rfl

theorem scan_number {literal : List Char} (h : Literal.IsLiteral literal)
    (hrest : Literal.EndsBefore rest) :
    Token.scan position (literal ++ rest) = .ok (.number (String.ofList literal)) := by
  have hfound := Literal.longestPrefix?_append h hrest
  rcases Literal.head_of_isLiteral h with ⟨c, text, rfl, hc⟩
  have hblank : isBlank c = false := by
    rcases hc with hdigit | rfl
    · exact Literal.isBlank_of_isDigit hdigit
    · rfl
  have hparens : c ≠ '(' ∧ c ≠ ')' := by
    constructor
    · rintro rfl
      exact absurd hc (by decide)
    · rintro rfl
      exact absurd hc (by decide)
  rw [List.cons_append] at hfound ⊢
  simp only [Token.scan, hblank, hparens, hfound]
  rfl

-- One token.
theorem Tokenizes.single {t : Token} (ht : t.isSolid = true)
    (hscan : ∀ position, Token.scan position (t.spelling ++ rest) = .ok t) :
    Tokenizes (t.spelling ++ rest) [t] rest :=
  .token ht hscan (.done rest)

theorem tokenizes_openParen : Tokenizes ('(' :: rest) [.openParen] rest :=
  @Tokenizes.single rest .openParen rfl fun _ => rfl

theorem tokenizes_closeParen : Tokenizes (')' :: rest) [.closeParen] rest :=
  @Tokenizes.single rest .closeParen rfl fun _ => rfl

theorem tokenizes_operator {op : Operator} (h : op = .multiply → rest.head? ≠ some '*') :
    Tokenizes (op.glyphs ++ rest) [.operator op] rest :=
  @Tokenizes.single rest (.operator op) rfl fun _ => scan_operator h

theorem tokenizes_number {literal : String} (h : Literal.IsLiteral literal.toList)
    (hrest : Literal.EndsBefore rest) :
    Tokenizes (literal.toList ++ rest) [.number literal] rest := by
  refine @Tokenizes.single rest (.number literal) rfl fun position => ?_
  have hscan := @scan_number position rest literal.toList h hrest
  rw [String.ofList_toList] at hscan
  exact hscan

/-- The numbers that are found are literals. -/
theorem isLiteral_of_scan {text : List Char} {literal : String}
    (h : Token.scan position text = .ok (.number literal)) :
    Literal.IsLiteral literal.toList := by
  cases text with
  | nil => cases h
  | cons c text =>
      simp only [Token.scan] at h
      split at h
      · cases h
      split at h
      · cases h
      split at h
      · cases h
      split at h
      · rename_i chars hchars
        rw [Except.ok.injEq, Token.number.injEq] at h
        rw [← h, String.toList_ofList]
        exact Literal.isLiteral_of_longestPrefix? hchars
      · split at h
        · cases h
        · split at h
          · cases h
          · cases h

theorem isLiteral_of_lex {l : Lexer} {literal : String} (h : l.lex.1 = .ok (.number literal)) :
    Literal.IsLiteral literal.toList := by
  unfold Lexer.lex at h
  split at h
  · rename_i t hscan
    rw [Except.ok.inj h] at hscan
    exact isLiteral_of_scan hscan
  · cases h

theorem isLiteral_of_lexSolid {l : Lexer} {literal : String}
    (h : l.lexSolid.1 = .ok (.number literal)) : Literal.IsLiteral literal.toList :=
  isLiteral_of_lex h

-- The number consumed is a queued one or one just found, and the queue gets no new ones.
theorem next_numbers {l : Lexer}
    (hqueue : ∀ literal, .number literal ∈ l.queue → Literal.IsLiteral literal.toList) :
    (∀ literal, l.next.1 = .ok (.number literal) → Literal.IsLiteral literal.toList) ∧
      ∀ literal, .number literal ∈ l.next.2.queue → Literal.IsLiteral literal.toList := by
  rcases l.next_cases with ⟨t, queue, hq, hnext⟩ | ⟨t, l', -, hlex, hnil, hnext⟩ |
    ⟨cause, l', -, -, hnil, hnext⟩
  · rw [hq] at hqueue
    rw [hnext]
    refine ⟨fun literal ht => ?_, fun literal hmem => ?_⟩
    · rw [Except.ok.injEq] at ht
      exact hqueue literal (ht ▸ List.mem_cons_self)
    · exact hqueue literal (List.mem_cons_of_mem t hmem)
  · rw [hnext]
    refine ⟨fun literal ht => ?_, fun literal hmem => ?_⟩
    · exact isLiteral_of_lexSolid ((congrArg Prod.fst hlex).trans ht)
    · change .number literal ∈ l'.queue at hmem
      rw [hnil] at hmem
      exact absurd hmem List.not_mem_nil
  · rw [hnext]
    refine ⟨fun literal ht => ?_, fun literal hmem => ?_⟩
    · cases ht
    · rw [hnil] at hmem
      exact absurd hmem List.not_mem_nil

/-- Numbers that a lexer hands out are literals if those that it has queued are. -/
theorem isLiteral_of_mem_stream {l : Lexer}
    (hqueue : ∀ literal, .number literal ∈ l.queue → Literal.IsLiteral literal.toList) :
    ∀ literal, .number literal ∈ l.stream.tokens → Literal.IsLiteral literal.toList := by
  induction l using Lexer.next_induction with
  | failed l cause hnext =>
      rw [Lexer.stream_of_error hnext]
      exact fun _ hmem => absurd hmem List.not_mem_nil
  | ended l hnext =>
      rw [Lexer.stream_of_end hnext]
      exact fun _ hmem => absurd hmem List.not_mem_nil
  | token l t hnext ht ih =>
      intro literal hmem
      rcases next_numbers hqueue with ⟨hhead, hbehind⟩
      rw [Lexer.stream_of_token hnext ht, TokenStream.tokens, List.mem_cons] at hmem
      rcases hmem with rfl | hmem
      · exact hhead literal hnext
      · exact ih hbehind literal hmem

end Finding

end Reckoner
