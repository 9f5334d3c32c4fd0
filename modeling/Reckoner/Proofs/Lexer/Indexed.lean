import Reckoner.Proofs.Lexer.Places
import Reckoner.Proofs.Lexer.Reachable

/-!
# Lexers with an Index

The lexer as it can be kept in a few cells, and that it is the same lexer.

`Lexer` keeps the unread part of its text, and its tokens carry the texts that they were
read from. Nothing can come apart there. A lexer that is to be cheap keeps other things:
the text as a whole and an index into it, the character at the index, tokens that
are markers and nothing more, and beside them the texts of those that are numbers. The
text of a number goes from the scanner into one cell, from there into the queue or
directly to the caller, and it is the operations that have to see to it that the right
text arrives with the right token. They go through the text one character at a time, and
the raw ones leave the queue as it is.

`IndexedLexer` is that lexer. `Represents` says which lexer it stands for, and what
has to be true of its cells for that: the index lies inside of the text, the character is
the one at the index, and the queue holds the markers of the tokens with the texts of the
numbers among them. Each operation answers what the operation of the lexer answers, with
the text left out, and leaves the cells of the lexer that it leaves (`step_represents`).
The one cell of which nothing is said is the text scanned last. It is right just after
a number was scanned, and this is the only time at which it is read (`ScansAlike`).

## Main definitions

* `Kind`, `Token.kind`: Tokens without their texts.
* `IndexedLexer`: The cells.
* `IndexedLexer.matchOperator?`: An operator, one symbol after another.
* `IndexedLexer.lex`, `IndexedLexer.lexSolid`: Scanning one character after another.
* `IndexedLexer.lookahead`, `IndexedLexer.next`: The operations that respect the queue.
* `IndexedLexer.step`: All operations.
* `IndexedLexer.Represents`: The cells of a lexer.
* `ScansAlike`: Two scans with the same result.

## Theorems

* `takeDigits_alike`, `takeDecimal_alike`: Numbers, one character after another.
* `matchOperator?_eq`: The first symbol that is found is the longest.
* `lex_alike`, `lexSolid_alike`: Scanning.
* `lookahead_alike`, `next_alike`: Looking ahead and consuming.
* `step_represents`, `run_represents`: All operations.
-/

namespace Reckoner

/-- What a token is, without the text that it was read from. -/
inductive Kind where
  | openParen
  | closeParen
  | operator (op : Operator)
  | number
  | blank
  | endOfInput
  deriving DecidableEq

namespace Token

/-- The kind of a token. -/
def kind : Token → Kind
  | openParen => .openParen
  | closeParen => .closeParen
  | operator op => .operator op
  | number _ => .number
  | blank _ => .blank
  | endOfInput => .endOfInput

/-- The kind of a token, with the text if it is a number. -/
def entry (t : Token) : Kind × Option String :=
  (t.kind, t.literal?)

end Token

/-- A lexer with an index into its text. -/
structure IndexedLexer where
  /-- The whole text. -/
  input : List Char
  /-- The index of the scanner. -/
  position : Nat
  /-- The character at the index. -/
  current : Option Char
  /-- What was scanned and not consumed, the next one first. -/
  queue : List (Kind × Option String)
  /-- The text of the number consumed last. -/
  literal : Option String
  /-- The text of the number scanned last. -/
  scanned : Option String

namespace IndexedLexer

/-- A lexer at the start of a text. -/
def ofText (text : String) : IndexedLexer :=
  { input := text.toList
    position := 0
    current := text.toList.head?
    queue := []
    literal := none
    scanned := none }

/-- Moves the scanner to the next character and returns it. At the end it stays where it is. -/
def advance (x : IndexedLexer) : Option Char × IndexedLexer :=
  let position := if x.position < x.input.length then x.position + 1 else x.position
  (x.input[position]?, { x with position := position, current := x.input[position]? })

/-- Moves the scanner several times. -/
def advanceBy : Nat → IndexedLexer → IndexedLexer
  | 0, x => x
  | n + 1, x => advanceBy n x.advance.2

/-- How many more characters can be current. -/
def left (x : IndexedLexer) : Nat :=
  x.input.length - x.position + x.current.toList.length

theorem advance_left_lt {x : IndexedLexer} {c : Char} (h : x.current = some c) :
    x.advance.2.left < x.left := by
  have hcurrent : x.current.toList.length = 1 := by
    rw [h]
    rfl
  by_cases hlt : x.position < x.input.length
  · have hone : ∀ o : Option Char, o.toList.length ≤ 1 := fun o => by
      cases o with
      | none => exact Nat.zero_le 1
      | some c => exact Nat.le_refl 1
    simp only [advance, if_pos hlt, left, hcurrent]
    have hle := hone x.input[x.position + 1]?
    omega
  · have hnone : x.input[x.position]? = none := List.getElem?_eq_none (Nat.le_of_not_lt hlt)
    simp only [advance, if_neg hlt, left, hcurrent, hnone, Option.toList_none, List.length_nil]
    omega

/-- Takes the digits at the scanner, behind some text. -/
def takeDigits (text : List Char) (x : IndexedLexer) : List Char × IndexedLexer :=
  match _h : x.current with
  | none => (text, x)
  | some c => if c.isDigit then takeDigits (text ++ [c]) x.advance.2 else (text, x)
termination_by x.left
decreasing_by exact advance_left_lt _h

theorem takeDigits_of_none {x : IndexedLexer} (h : x.current = none) (text : List Char) :
    x.takeDigits text = (text, x) := by
  rw [takeDigits]
  split
  · rfl
  · rename_i c hc
    rw [h] at hc
    cases hc

theorem takeDigits_of_some {x : IndexedLexer} {c : Char} (h : x.current = some c)
    (text : List Char) :
    x.takeDigits text = if c.isDigit then x.advance.2.takeDigits (text ++ [c]) else (text, x) := by
  rw [takeDigits]
  split
  · rename_i hc
    rw [h] at hc
    cases hc
  · rename_i c' hc
    rw [h, Option.some.injEq] at hc
    rw [hc]

/-- Whether a number begins at the scanner: at a digit, or at a dot with a digit behind it. -/
def startsNumber (x : IndexedLexer) : Bool :=
  match x.current with
  | none => false
  | some c =>
    c.isDigit || c == '.' && match x.input[x.position + 1]? with
      | none => false
      | some d => d.isDigit

/-- Takes the digits at the scanner, and then a dot and digits again, behind some text. -/
def takeDecimal (text : List Char) (x : IndexedLexer) : List Char × IndexedLexer :=
  let whole := x.takeDigits text
  if whole.2.current = some '.' then whole.2.advance.2.takeDigits (whole.1 ++ ['.']) else whole

/-- Takes the number at the scanner. A dot in front only opens the number, and one more may
    follow. -/
def takeNumber (x : IndexedLexer) : List Char × IndexedLexer :=
  if x.current = some '.' then x.advance.2.takeDecimal ['.'] else x.takeDecimal []

/-- A parenthesis at the scanner. -/
def lexParen? (x : IndexedLexer) : Option (Kind × IndexedLexer) :=
  match x.current with
  | some '(' => some (.openParen, x.advance.2)
  | some ')' => some (.closeParen, x.advance.2)
  | _ => none

/-- A number at the scanner. Its text is put down. -/
def lexNumber? (x : IndexedLexer) : Option (Kind × IndexedLexer) :=
  if x.startsNumber then
    some (.number, { x.takeNumber.2 with scanned := some (String.ofList x.takeNumber.1) })
  else none

/-- How many characters the longest operator has. -/
def longestOperator : Nat :=
  (Operator.all.map (·.glyphs.length)).foldl max 0

/-- The symbols of all operators, the longest first. -/
def operatorSymbols : List (List Char) :=
  (Operator.all.map Operator.glyphs).mergeSort fun a b => decide (b.length ≤ a.length)

/-- The operator at the front of a text. The symbols are tried one after the other, and the first
    one that stands there is taken. -/
def matchOperator? (text : List Char) : Option Operator :=
  (operatorSymbols.find? (·.isPrefixOf text)).bind fun symbol =>
    Operator.ofSymbol? (String.ofList symbol)

/-- An operator at the scanner, looked for among as many characters as the longest one has. -/
def lexOperator? (x : IndexedLexer) : Except LexError (Option (Kind × IndexedLexer)) :=
  match x.current with
  | none => .ok none
  | some c =>
    if Operator.startsWith c then
      match matchOperator? ((x.input.drop x.position).take longestOperator) with
      | some op => .ok (some (.operator op, advanceBy op.glyphs.length x))
      | none => .error (.incompleteOperator x.position)
    else .ok none

/-- Scans exactly one token, which may be a blank. -/
def lex (x : IndexedLexer) : Except LexError Kind × IndexedLexer :=
  match x.current with
  | none => (.ok .endOfInput, x)
  | some c =>
    if isBlank c then (.ok .blank, x.advance.2)
    else
      match x.lexParen?.or x.lexNumber? with
      | some (kind, x') => (.ok kind, x')
      | none =>
        match x.lexOperator? with
        | .error cause => (.error cause, x)
        | .ok (some (kind, x')) => (.ok kind, x')
        | .ok none => (.error (.unrecognizedCharacter c x.position), x)

-- Only a blank is scanned as one.
theorem kind_ne_blank {x x' : IndexedLexer} {kind : Kind}
    (h : x.lexParen?.or x.lexNumber? = some (kind, x') ∨
      x.lexOperator? = .ok (some (kind, x'))) : kind ≠ .blank := by
  rintro rfl
  rcases h with h | h
  · rcases Option.or_eq_some_iff.mp h with h | ⟨-, h⟩
    · unfold lexParen? at h
      split at h
      · cases h
      · cases h
      · cases h
    · unfold lexNumber? at h
      split at h
      · cases h
      · cases h
  · unfold lexOperator? at h
    split at h
    · cases h
    · split at h
      · split at h
        · cases h
        · cases h
      · cases h

theorem lex_blank_left_lt {x x' : IndexedLexer} (h : x.lex = (.ok .blank, x')) :
    x'.left < x.left := by
  unfold lex at h
  split at h
  · cases h
  · rename_i c hcurrent
    split at h
    · cases h
      exact advance_left_lt hcurrent
    · split at h
      · rename_i kind x'' hfound
        cases h
        exact absurd rfl (kind_ne_blank (Or.inl hfound))
      · split at h
        · cases h
        · rename_i kind x'' hfound
          cases h
          exact absurd rfl (kind_ne_blank (Or.inr hfound))
        · cases h

/-- Scans tokens until one is no blank. -/
def lexSolid (x : IndexedLexer) : Except LexError Kind × IndexedLexer :=
  match _h : x.lex with
  | (.ok .blank, x') => lexSolid x'
  | (answer, x') => (answer, x')
termination_by x.left
decreasing_by exact lex_blank_left_lt _h

/-- Scans more tokens into the queue, or as many as can be read before an error. -/
def enqueue : Nat → IndexedLexer → Except LexError Unit × IndexedLexer
  | 0, x => (.ok (), x)
  | n + 1, x =>
    match x.lexSolid with
    | (.ok kind, x') =>
      let text := if kind = .number then x'.scanned else none
      enqueue n { x' with queue := x'.queue ++ [(kind, text)] }
    | (.error cause, x') => (.error cause, x')

/-- The token some places ahead, without consuming any. -/
def lookahead (n : Nat) (x : IndexedLexer) : Except LexError Kind × IndexedLexer :=
  let places := max n 1
  match enqueue (places - x.queue.length) x with
  | (.ok (), x') => (.ok (x'.queue.getD (places - 1) (.endOfInput, none)).1, x')
  | (.error cause, x') => (.error cause, x')

/-- The next token, without consuming it. -/
def peek (x : IndexedLexer) : Except LexError Kind × IndexedLexer :=
  x.lookahead 1

/-- Takes down the text of a token, if it is a number. -/
def consumed (kind : Kind) (text : Option String) (x : IndexedLexer) : IndexedLexer :=
  if kind = .number then { x with literal := text } else x

/-- Consumes a token. Its text comes from the queue, or it is the one scanned last. -/
def next (x : IndexedLexer) : Except LexError Kind × IndexedLexer :=
  match x.queue with
  | (kind, text) :: queue => (.ok kind, { x with queue := queue }.consumed kind text)
  | [] =>
    match x.lexSolid with
    | (.ok kind, x') => (.ok kind, x'.consumed kind x'.scanned)
    | (.error cause, x') => (.error cause, x')

/-- The lexer that an operation leaves. -/
def step (x : IndexedLexer) : Lexer.Step → IndexedLexer
  | .call .peek => x.peek.2
  | .call (.lookahead n) => (x.lookahead n).2
  | .call .next => x.next.2
  | .lex => x.lex.2
  | .advance => x.advance.2

/-- The cells of a lexer over a text. -/
structure Represents (source : List Char) (x : IndexedLexer) (l : Lexer) : Prop where
  input : x.input = source
  position : x.position = l.position
  position_le : l.position ≤ source.length
  current : x.current = source[l.position]?
  unread : l.unread = source.drop l.position
  queue : x.queue = l.queue.map Token.entry
  literal : x.literal = l.literal

namespace Represents

variable {source : List Char} {x : IndexedLexer} {l : Lexer}

theorem start (text : String) : (ofText text).Represents text.toList (Lexer.ofText text) where
  input := rfl
  position := rfl
  position_le := Nat.zero_le _
  current := List.head?_eq_getElem?
  unread := rfl
  queue := rfl
  literal := rfl

-- The current character is the first unread one.
theorem current_eq (h : x.Represents source l) : x.current = l.unread.head? := by
  rw [h.current, h.unread, List.head?_drop]

theorem length_unread (h : x.Represents source l) :
    l.unread.length = source.length - l.position := by
  rw [h.unread, List.length_drop]

theorem advance (h : x.Represents source l) :
    x.advance.1 = l.advance.1 ∧ x.advance.2.Represents source l.advance.2 := by
  have hle := h.position_le
  have hlength := h.length_unread
  have hposition : (if x.position < x.input.length then x.position + 1 else x.position)
      = l.position + min 1 l.unread.length := by
    rw [h.position, h.input]
    split
    · omega
    · omega
  have hunread : l.unread.drop 1 = source.drop (l.position + min 1 l.unread.length) := by
    by_cases hlt : l.position < source.length
    · rw [Nat.min_eq_left (by omega), h.unread, List.drop_drop]
    · rw [h.unread, List.drop_drop, List.drop_eq_nil_of_le (by omega),
        List.drop_eq_nil_of_le (by omega)]
  have hrest : x.advance.2.Represents source l.advance.2 :=
    { input := h.input
      position := hposition
      position_le := by
        simp only [Lexer.advance, Lexer.skip]
        omega
      current := by
        simp only [IndexedLexer.advance, Lexer.advance, Lexer.skip]
        rw [hposition, h.input]
      unread := hunread
      queue := h.queue
      literal := h.literal }
  exact ⟨hrest.current_eq, hrest⟩

theorem advanceBy (n : Nat) (h : x.Represents source l) :
    (x.advanceBy n).Represents source (l.skip n) := by
  induction n generalizing x l with
  | zero =>
      rw [Lexer.skip_zero]
      exact h
  | succ n ih =>
      have hrest := ih h.advance.2
      rw [Lexer.advance, Lexer.skip_skip, Nat.add_comm 1 n] at hrest
      exact hrest

-- Where a character stands, the next one is the first of what is unread behind it.
theorem advance_cons {c : Char} {rest : List Char} (h : x.Represents source l)
    (hunread : l.unread = c :: rest) :
    x.current = some c ∧ x.advance.2.Represents source (l.skip 1) ∧ (l.skip 1).unread = rest ∧
      x.input[x.position + 1]? = rest.head? := by
  refine ⟨?_, h.advance.2, Lexer.skip_one_unread hunread, ?_⟩
  · rw [h.current_eq, hunread, List.head?_cons]
  · have hbehind : source.drop (l.position + 1) = rest := by
      rw [← List.drop_drop, ← h.unread, hunread, List.drop_succ_cons, List.drop_zero]
    rw [h.input, h.position, ← List.head?_drop, hbehind]

-- The digits are taken one by one, and the scanner stops behind them.
theorem takeDigits_alike (h : x.Represents source l) (text : List Char) :
    (x.takeDigits text).1 = text ++ l.unread.takeWhile Char.isDigit ∧
      (x.takeDigits text).2.Represents source
        (l.skip (l.unread.takeWhile Char.isDigit).length) := by
  induction hunread : l.unread generalizing x l text with
  | nil =>
      have hcurrent : x.current = none := by rw [h.current_eq, hunread, List.head?_nil]
      rw [takeDigits_of_none hcurrent, List.takeWhile_nil, List.append_nil, List.length_nil,
        Lexer.skip_zero]
      exact ⟨rfl, h⟩
  | cons c rest ih =>
      rcases h.advance_cons hunread with ⟨hcurrent, hadvance, hrest, -⟩
      rw [takeDigits_of_some hcurrent]
      by_cases hc : c.isDigit = true
      · rcases ih hadvance (text ++ [c]) hrest with ⟨htext, hbehind⟩
        rw [Lexer.skip_skip, Nat.add_comm 1] at hbehind
        rw [if_pos hc, List.takeWhile_cons_of_pos hc, htext, List.append_assoc,
          List.singleton_append, List.length_cons]
        exact ⟨rfl, hbehind⟩
      · rw [if_neg hc, List.takeWhile_cons_of_neg hc, List.append_nil, List.length_nil,
          Lexer.skip_zero]
        exact ⟨rfl, h⟩

-- A decimal is taken as it is found by the scanner that sees the whole text.
theorem takeDecimal_alike (h : x.Represents source l) (text : List Char) :
    (x.takeDecimal text).1 = text ++ Literal.decimalPrefix l.unread ∧
      (x.takeDecimal text).2.Represents source
        (l.skip (Literal.decimalPrefix l.unread).length) := by
  have htaken := h.takeDigits_alike text
  rw [takeDecimal]
  rcases hdigits : x.takeDigits text with ⟨taken, y⟩
  rw [hdigits] at htaken
  dsimp only at htaken ⊢
  rcases htaken with ⟨rfl, hwhole⟩
  have hunread : (l.skip (l.unread.takeWhile Char.isDigit).length).unread
      = l.unread.dropWhile Char.isDigit := by
    calc l.unread.drop (l.unread.takeWhile Char.isDigit).length
        = (l.unread.takeWhile Char.isDigit ++ l.unread.dropWhile Char.isDigit).drop
            (l.unread.takeWhile Char.isDigit).length := by rw [List.takeWhile_append_dropWhile]
      _ = l.unread.dropWhile Char.isDigit := List.drop_left
  rcases hbehind : l.unread.dropWhile Char.isDigit with _ | ⟨c, rest⟩
  · have hcurrent : y.current = none := by
      rw [hwhole.current_eq, hunread, hbehind, List.head?_nil]
    rw [hcurrent, if_neg nofun, Literal.decimalPrefix, hbehind, Literal.fractionPrefix,
      List.append_nil]
    exact ⟨rfl, hwhole⟩
  · rw [hbehind] at hunread
    rcases hwhole.advance_cons hunread with ⟨hcurrent, hadvance, hrest, -⟩
    rw [hcurrent, Literal.decimalPrefix, hbehind, Literal.fractionPrefix]
    by_cases hc : c = '.'
    · rcases hadvance.takeDigits_alike (text ++ l.unread.takeWhile Char.isDigit ++ ['.']) with
        ⟨hfraction, hend⟩
      rw [hrest, Lexer.skip_skip, Lexer.skip_skip] at hend
      rw [hrest] at hfraction
      rw [hc, if_pos rfl, if_pos rfl, hfraction, List.length_append, List.length_cons,
        Nat.add_comm _ 1]
      exact ⟨by simp only [List.append_assoc, List.singleton_append], hend⟩
    · rw [if_neg fun heq => hc (Option.some.inj heq), if_neg hc, List.append_nil]
      exact ⟨rfl, hwhole⟩

-- A number begins where the scanner that sees the whole text finds a literal.
theorem startsNumber_eq (h : x.Represents source l) :
    x.startsNumber = (Literal.longestPrefix? l.unread).isSome := by
  rcases hunread : l.unread with _ | ⟨c, rest⟩
  · have hcurrent : x.current = none := by rw [h.current_eq, hunread, List.head?_nil]
    rw [startsNumber, hcurrent]
    rfl
  · rcases h.advance_cons hunread with ⟨hcurrent, -, -, hahead⟩
    have hopens : (match rest.head? with
        | none => false
        | some d => d.isDigit) = Literal.opensWithDigit rest := by
      cases rest with
      | nil => rfl
      | cons d rest => rfl
    simp only [startsNumber, hcurrent, hahead, hopens]
    rw [Literal.longestPrefix?]
    by_cases hc : c = '.'
    · rw [hc, if_pos rfl]
      cases Literal.opensWithDigit rest with
      | true => rfl
      | false => rfl
    · rw [if_neg hc, beq_eq_false_iff_ne.mpr hc, Bool.false_and, Bool.or_false]
      rw [Literal.opensWithDigit]
      cases c.isDigit with
      | true => rfl
      | false => rfl

-- The number that is taken is that literal.
theorem takeNumber_alike (h : x.Represents source l) {literal : List Char}
    (hliteral : Literal.longestPrefix? l.unread = some literal) :
    x.takeNumber.1 = literal ∧ x.takeNumber.2.Represents source (l.skip literal.length) := by
  rcases hunread : l.unread with _ | ⟨c, rest⟩
  · rw [hunread] at hliteral
    cases hliteral
  · rcases h.advance_cons hunread with ⟨hcurrent, hadvance, hrest, -⟩
    rw [takeNumber, hcurrent]
    rw [hunread, Literal.longestPrefix?] at hliteral
    by_cases hc : c = '.'
    · have hdecimal := hadvance.takeDecimal_alike ['.']
      rw [hrest, Lexer.skip_skip] at hdecimal
      rw [if_pos hc] at hliteral
      split at hliteral
      · rw [← Option.some.inj hliteral, hc, if_pos rfl, List.length_cons, Nat.add_comm _ 1]
        exact hdecimal
      · cases hliteral
    · have hdecimal := h.takeDecimal_alike []
      rw [if_neg hc] at hliteral
      rw [if_neg fun heq => hc (Option.some.inj heq)]
      split at hliteral
      · rw [← Option.some.inj hliteral, ← hunread]
        exact hdecimal
      · cases hliteral

-- Neither the text scanned last nor what has been taken down belongs to the cells of a lexer.
theorem with_scanned (h : x.Represents source l) (scanned : Option String) :
    Represents source { x with scanned := scanned } l :=
  { h with input := h.input }

theorem take {t : Token} (h : x.Represents source (l.skip t.width)) :
    x.Represents source (l.take t) :=
  { h with input := h.input }

end Represents

/-- Two scans with the same result. After a number its text is the one scanned last. -/
structure ScansAlike (source : List Char) (scan : Except LexError Kind × IndexedLexer)
    (scan' : Except LexError Token × Lexer) : Prop where
  answer : scan.1 = scan'.1.map Token.kind
  rest : scan.2.Represents source scan'.2
  scanned : ∀ literal, scan'.1 = .ok (.number literal) → scan.2.scanned = some literal

-- Of symbols that are tried the longest first, the first one that is found is the longest.
theorem length_le_of_find? {symbols : List (List Char)} {symbol text : List Char}
    (hsorted : symbols.Pairwise fun a b => b.length ≤ a.length)
    (hfound : symbols.find? (·.isPrefixOf text) = some symbol) :
    ∀ other ∈ symbols, other <+: text → other.length ≤ symbol.length := by
  rcases List.find?_eq_some_iff_append.mp hfound with ⟨-, before, behind, rfl, hbefore⟩
  rw [List.pairwise_append, List.pairwise_cons] at hsorted
  intro other hmem hother
  rcases List.mem_append.mp hmem with hmem | hmem
  · -- The symbols before it do not stand there.
    have hnot := hbefore other hmem
    rw [List.isPrefixOf_iff_prefix.mpr hother] at hnot
    exact absurd hnot (by simp)
  · rcases List.mem_cons.mp hmem with rfl | hmem
    · exact Nat.le_refl _
    · exact hsorted.2.1.1 other hmem

theorem mem_operatorSymbols {symbol : List Char} :
    symbol ∈ operatorSymbols ↔ ∃ op : Operator, op.glyphs = symbol := by
  rw [operatorSymbols, List.mem_mergeSort, List.mem_map]
  constructor
  · rintro ⟨op, -, hop⟩
    exact ⟨op, hop⟩
  · rintro ⟨op, hop⟩
    exact ⟨op, op.mem_all, hop⟩

theorem pairwise_operatorSymbols : operatorSymbols.Pairwise fun a b => b.length ≤ a.length := by
  have htrans : ∀ a b c : List Char, decide (b.length ≤ a.length) = true →
      decide (c.length ≤ b.length) = true → decide (c.length ≤ a.length) = true := by
    intro a b c hab hbc
    simp only [decide_eq_true_eq] at hab hbc ⊢
    omega
  have htotal : ∀ a b : List Char,
      (decide (b.length ≤ a.length) || decide (a.length ≤ b.length)) = true := by
    intro a b
    simp only [Bool.or_eq_true, decide_eq_true_eq]
    omega
  exact (List.pairwise_mergeSort htrans htotal _).imp of_decide_eq_true

/-- The first symbol that is found is that of the longest operator. -/
theorem matchOperator?_eq (text : List Char) :
    matchOperator? text = Operator.longestPrefix? text := by
  unfold matchOperator?
  rcases hfound : operatorSymbols.find? (·.isPrefixOf text) with _ | symbol
  · rw [hfound]
    rcases hop : Operator.longestPrefix? text with _ | op
    · rfl
    · have hnot := List.find?_eq_none.mp hfound op.glyphs (mem_operatorSymbols.mpr ⟨op, rfl⟩)
      exact absurd (List.isPrefixOf_iff_prefix.mpr (Operator.longestPrefix?_eq_some hop).1) hnot
  · have hlongest := length_le_of_find? pairwise_operatorSymbols hfound
    have hmatch := List.find?_some hfound
    have hfront := List.isPrefixOf_iff_prefix.mp hmatch
    rcases mem_operatorSymbols.mp (List.mem_of_find?_eq_some hfound) with ⟨op, rfl⟩
    rcases hop : Operator.longestPrefix? text with _ | op'
    · exact absurd hfront (Operator.longestPrefix?_eq_none hop op)
    · rcases Operator.longestPrefix?_eq_some hop with ⟨hfront', hlongest'⟩
      -- Both are the longest one, so they are the same piece of the text.
      have hlength : op.glyphs.length = op'.glyphs.length :=
        Nat.le_antisymm (hlongest' op hfront)
          (hlongest op'.glyphs (mem_operatorSymbols.mpr ⟨op', rfl⟩) hfront')
      have hsame : op.glyphs = op'.glyphs :=
        (List.prefix_of_prefix_length_le hfront hfront' (Nat.le_of_eq hlength)).eq_of_length hlength
      rw [hfound, ← Operator.glyphs_injective hsame]
      exact op.ofSymbol?_symbol

-- No operator is longer than the piece of text in which it is looked for.
theorem longestPrefix?_take (text : List Char) :
    Operator.longestPrefix? (text.take longestOperator) = Operator.longestPrefix? text := by
  have hfront : ∀ op ∈ Operator.all,
      op.glyphs.isPrefixOf (text.take longestOperator) = op.glyphs.isPrefixOf text := by
    intro op _
    have hlength : op.glyphs.length ≤ longestOperator := by
      cases op with
      | _ => decide
    rw [Bool.eq_iff_iff, List.isPrefixOf_iff_prefix, List.isPrefixOf_iff_prefix,
      List.prefix_take_iff]
    exact ⟨And.left, fun h => ⟨h, hlength⟩⟩
  rw [Operator.longestPrefix?, Operator.longestPrefix?, List.filter_congr hfront]

-- An operator begins with a character that an operator begins with.
theorem startsWith_of_front {op : Operator} {c : Char} {rest : List Char}
    (h : op.glyphs <+: c :: rest) : Operator.startsWith c = true := by
  refine List.any_eq_true.mpr ⟨op, op.mem_all, ?_⟩
  rw [beq_iff_eq]
  rcases List.exists_cons_of_ne_nil op.glyphs_ne_nil with ⟨c', glyphs, hglyphs⟩
  rw [hglyphs] at h ⊢
  rw [(List.cons_prefix_cons.mp h).1, List.head?_cons]

section Scanning

variable {source : List Char} {x : IndexedLexer} {l : Lexer}

-- A token of one character, whatever it is that tells it.
theorem lex_single_alike (h : x.Represents source l) {t : Token} (hwidth : t.width = 1)
    (hnumber : t.kind ≠ .number) (hscan : Token.scan l.position l.unread = .ok t)
    (hlex : x.lex = (.ok t.kind, x.advance.2)) : ScansAlike source x.lex l.lex := by
  rw [hlex, Lexer.lex_of_scan hscan]
  refine ⟨rfl, Represents.take ?_, fun literal hliteral => ?_⟩
  · rw [hwidth]
    exact h.advance.2
  · rw [Except.ok.inj hliteral] at hnumber
    exact absurd rfl hnumber

section Lexemes

variable {c : Char} {rest : List Char} (h : x.Represents source l)
  (hunread : l.unread = c :: rest) (hc : ¬isBlank c = true) (hopen : c ≠ '(') (hclose : c ≠ ')')
include h hunread hopen hclose

theorem lexParen?_eq_none : x.lexParen? = none := by
  rw [lexParen?, (h.advance_cons hunread).1]
  split
  · rename_i heq
    exact absurd (Option.some.inj heq) hopen
  · rename_i heq
    exact absurd (Option.some.inj heq) hclose
  · rfl

include hc

-- A number where a literal stands.
theorem lex_number_alike {literal : List Char}
    (hliteral : Literal.longestPrefix? l.unread = some literal) :
    ScansAlike source x.lex l.lex := by
  have hcurrent := (h.advance_cons hunread).1
  have hparen := lexParen?_eq_none h hunread hopen hclose
  have hlex : l.lex = (.ok (.number (String.ofList literal)),
      l.take (.number (String.ofList literal))) := by
    refine Lexer.lex_of_scan ?_
    rw [hunread] at hliteral ⊢
    simp only [Token.scan, if_neg hc, if_neg hopen, if_neg hclose, hliteral]
  rcases h.takeNumber_alike hliteral with ⟨htext, hbehind⟩
  have hlex' : x.lex
      = (.ok .number, { x.takeNumber.2 with scanned := some (String.ofList literal) }) := by
    simp only [lex, hcurrent, if_neg hc, hparen, lexNumber?, h.startsNumber_eq, hliteral, htext,
      Option.none_or, Option.isSome_some, if_true]
  have hwidth : (Token.number (String.ofList literal)).width = literal.length := by
    rw [Token.width, Token.spelling, String.toList_ofList]
  rw [← hwidth] at hbehind
  rw [hlex, hlex']
  refine ⟨rfl, hbehind.take.with_scanned _, fun literal' hliteral' => ?_⟩
  rw [Token.number.inj (Except.ok.inj hliteral')]

-- Where none stands, an operator or an error.
theorem lex_operator_alike (hliteral : Literal.longestPrefix? l.unread = none) :
    ScansAlike source x.lex l.lex := by
  have hcurrent := (h.advance_cons hunread).1
  have hparen := lexParen?_eq_none h hunread hopen hclose
  have hnumber : x.lexNumber? = none := by
    rw [lexNumber?, h.startsNumber_eq, hliteral]
    rfl
  have hcandidate : matchOperator? ((x.input.drop x.position).take longestOperator)
      = Operator.longestPrefix? l.unread := by
    rw [matchOperator?_eq, longestPrefix?_take, h.input, h.position, ← h.unread]
  rcases hop : Operator.longestPrefix? l.unread with _ | op
  · have hlex : l.lex = (.error (.unrecognizedCharacter c l.position), l) := by
      refine Lexer.lex_of_scan_error ?_
      rw [hunread] at hliteral hop ⊢
      simp only [Token.scan, if_neg hc, if_neg hopen, if_neg hclose, hliteral, hop,
        startsWith_eq_false hop, if_neg Bool.false_ne_true]
    have hlex' : x.lex = (.error (.unrecognizedCharacter c x.position), x) := by
      rw [hunread] at hop
      simp only [lex, hcurrent, if_neg hc, hparen, hnumber, lexOperator?, Option.or_none,
        startsWith_eq_false hop, if_neg Bool.false_ne_true]
    rw [hlex, hlex', h.position]
    exact ⟨rfl, h, fun _ hnumber => by cases hnumber⟩
  · have hlex : l.lex = (.ok (.operator op), l.take (.operator op)) := by
      refine Lexer.lex_of_scan ?_
      rw [hunread] at hliteral hop ⊢
      simp only [Token.scan, if_neg hc, if_neg hopen, if_neg hclose, hliteral, hop]
    have hstarts : Operator.startsWith c = true := by
      rw [hunread] at hop
      exact startsWith_of_front (Operator.longestPrefix?_eq_some hop).1
    have hlex' : x.lex = (.ok (.operator op), advanceBy op.glyphs.length x) := by
      simp only [lex, hcurrent, if_neg hc, hparen, hnumber, lexOperator?, Option.or_none,
        if_pos hstarts, hcandidate, hop]
    rw [hlex, hlex']
    exact ⟨rfl, (h.advanceBy op.glyphs.length).take, fun _ hnumber => by cases hnumber⟩

end Lexemes

/-- Scanning one token gives the same and leaves the cells of the same lexer. -/
theorem lex_alike (h : x.Represents source l) : ScansAlike source x.lex l.lex := by
  rcases hunread : l.unread with _ | ⟨c, rest⟩
  · have hcurrent : x.current = none := by rw [h.current_eq, hunread, List.head?_nil]
    have hlex : x.lex = (.ok .endOfInput, x) := by simp only [lex, hcurrent]
    rw [hlex, Lexer.lex_of_unread_nil hunread]
    exact ⟨rfl, h, fun _ hnumber => by cases hnumber⟩
  · have hcurrent := (h.advance_cons hunread).1
    by_cases hc : isBlank c = true
    · have hscan : Token.scan l.position l.unread = .ok (.blank c) := by
        rw [hunread, Token.scan, if_pos hc]
      exact lex_single_alike h rfl Kind.noConfusion hscan
        (by simp only [lex, hcurrent, if_pos hc]; rfl)
    by_cases hopen : c = '('
    · subst hopen
      have hscan : Token.scan l.position l.unread = .ok .openParen := by rw [hunread]; rfl
      exact lex_single_alike h rfl Kind.noConfusion hscan
        (by simp only [lex, hcurrent, if_neg hc, lexParen?, Option.some_or]; rfl)
    by_cases hclose : c = ')'
    · subst hclose
      have hscan : Token.scan l.position l.unread = .ok .closeParen := by rw [hunread]; rfl
      exact lex_single_alike h rfl Kind.noConfusion hscan
        (by simp only [lex, hcurrent, if_neg hc, lexParen?, Option.some_or]; rfl)
    rcases hliteral : Literal.longestPrefix? l.unread with _ | literal
    · exact lex_operator_alike h hunread hc hopen hclose hliteral
    · exact lex_number_alike h hunread hc hopen hclose hliteral

theorem lexSolid_of_blank {x' : IndexedLexer} (h : x.lex = (.ok .blank, x')) :
    x.lexSolid = x'.lexSolid := by
  rw [lexSolid]
  split
  · rename_i x'' hlex
    rw [h] at hlex
    cases hlex
    rfl
  · rename_i answer x'' hblank hlex
    rw [h] at hlex
    cases hlex
    exact (hblank rfl).elim

theorem lexSolid_of_ne_blank (h : x.lex.1 ≠ .ok .blank) : x.lexSolid = x.lex := by
  rw [lexSolid]
  split
  · rename_i x'' hlex
    rw [hlex] at h
    exact absurd rfl h
  · rename_i answer x'' hblank hlex
    exact hlex.symm

-- Where no blank is scanned both of them scan once.
theorem lexSolid_alike_of_ne_blank (h : x.Represents source l)
    (hblank : ∀ c, l.lex.1 ≠ .ok (.blank c)) : ScansAlike source x.lexSolid l.lexSolid := by
  have halike := lex_alike h
  have hne : x.lex.1 ≠ .ok .blank := by
    rw [halike.answer]
    rcases hlex : l.lex.1 with cause | t
    · exact nofun
    · cases t with
      | blank c => exact absurd hlex (hblank c)
      | _ => exact nofun
  rw [lexSolid_of_ne_blank hne, Lexer.lexSolid_eq_lex hblank]
  exact halike

/-- So does scanning the token behind any blanks. -/
theorem lexSolid_alike (h : x.Represents source l) : ScansAlike source x.lexSolid l.lexSolid := by
  induction hunread : l.unread generalizing x l with
  | nil =>
      refine lexSolid_alike_of_ne_blank h ?_
      rw [Lexer.lex_of_unread_nil hunread]
      exact nofun
  | cons c rest ih =>
      by_cases hc : isBlank c = true
      · rcases h.advance_cons hunread with ⟨hcurrent, hadvance, hrest, -⟩
        have hlex : x.lex = (.ok .blank, x.advance.2) := by simp only [lex, hcurrent, if_pos hc]
        have hlexer : l.lexSolid = (l.skip 1).lexSolid := by
          rw [Lexer.lexSolid, Lexer.lexSolid, Lexer.skipBlanks_skip_one hunread hc]
        rw [lexSolid_of_blank hlex, hlexer]
        exact ih hadvance hrest
      · refine lexSolid_alike_of_ne_blank h fun c' hlex => ?_
        rw [Bool.not_eq_true] at hc
        rcases Lexer.lex_solid hunread hc with ⟨t, hlongest, hfound⟩ | ⟨-, hfound⟩
        · rw [hfound] at hlex
          have hlexeme := hlongest.lexeme
          rw [Except.ok.inj hlex] at hlexeme
          exact hlexeme
        · rw [hfound] at hlex
          cases hlex

/-- What scanning a token behind any blanks can do. After a token the text scanned last is that
    of the token, if it is a number. -/
theorem lexSolid_cases (h : x.Represents source l) :
    (∃ t x' l', x.lexSolid = (.ok t.kind, x') ∧ l.lexSolid = (.ok t, l') ∧
        x'.Represents source l' ∧ ∀ literal, t = .number literal → x'.scanned = some literal) ∨
      ∃ cause x' l', x.lexSolid = (.error cause, x') ∧ l.lexSolid = (.error cause, l') ∧
        x'.Represents source l' := by
  rcases lexSolid_alike h with ⟨hanswer, hrest, hscanned⟩
  rcases hlex : l.lexSolid with ⟨cause | t, l'⟩
  · rw [hlex] at hanswer hrest
    exact Or.inr ⟨cause, x.lexSolid.2, l', Prod.ext hanswer rfl, rfl, hrest⟩
  · rw [hlex] at hanswer hrest hscanned
    exact Or.inl ⟨t, x.lexSolid.2, l', Prod.ext hanswer rfl, rfl, hrest,
      fun literal ht => hscanned literal (congrArg _ ht)⟩

-- The text that is queued is that of the token.
theorem queuedText_eq {t : Token} (h : ∀ literal, t = .number literal → x.scanned = some literal) :
    (t.kind, if t.kind = .number then x.scanned else none) = t.entry := by
  cases t with
  | number literal =>
      rw [h literal rfl]
      rfl
  | _ => rfl

/-- Scanning into the queue gives the same and leaves the cells of the same lexer. -/
theorem enqueue_alike (n : Nat) (h : x.Represents source l) :
    (enqueue n x).1 = (Lexer.enqueue n l).1 ∧
      (enqueue n x).2.Represents source (Lexer.enqueue n l).2 := by
  induction n generalizing x l with
  | zero => exact ⟨rfl, h⟩
  | succ n ih =>
      rcases lexSolid_cases h with ⟨t, x', l', hscan, hlex, hrest, hscanned⟩ |
        ⟨cause, x', l', hscan, hlex, hrest⟩
      · simp only [enqueue, Lexer.enqueue, hscan, hlex]
        refine ih { hrest with queue := ?_ }
        rw [hrest.queue, List.map_append, queuedText_eq hscanned]
        rfl
      · simp only [enqueue, Lexer.enqueue, hscan, hlex]
        exact ⟨trivial, hrest⟩

/-- So does looking ahead. -/
theorem lookahead_alike (n : Nat) (h : x.Represents source l) :
    (x.lookahead n).1 = (l.lookahead n).1.map Token.kind ∧
      (x.lookahead n).2.Represents source (l.lookahead n).2 := by
  have hlength : x.queue.length = l.queue.length := by rw [h.queue, List.length_map]
  have hqueued := enqueue_alike (max n 1 - l.queue.length) h
  simp only [lookahead, Lexer.lookahead, hlength]
  rcases hx : enqueue (max n 1 - l.queue.length) x with ⟨outcome, x'⟩
  rcases hl : Lexer.enqueue (max n 1 - l.queue.length) l with ⟨outcome', l'⟩
  rw [hx, hl] at hqueued
  rcases hqueued with ⟨houtcome, hrest⟩
  dsimp only at houtcome hrest
  rw [houtcome]
  rcases outcome' with cause | ⟨⟩
  · exact ⟨rfl, hrest⟩
  · refine ⟨?_, hrest⟩
    -- Behind the queued tokens both of them take the end.
    have hget : x'.queue.getD (max n 1 - 1) (.endOfInput, none)
        = (l'.queue.getD (max n 1 - 1) .endOfInput).entry := by
      rw [hrest.queue, List.getD_eq_getElem?_getD, List.getD_eq_getElem?_getD,
        List.getElem?_map]
      exact Option.getD_map Token.entry .endOfInput _
    exact congrArg (fun entry => Except.ok (Prod.fst entry)) hget

-- A token that is consumed.
theorem Represents.consumed (h : x.Represents source l) {t : Token} {text : Option String}
    (htext : ∀ literal, t = .number literal → text = some literal) :
    (x.consumed t.kind text).Represents source (l.consumed t) := by
  cases t with
  | number literal =>
      rw [htext literal rfl]
      exact { h with literal := rfl }
  | _ => exact { h with literal := h.literal }

/-- So does consuming. -/
theorem next_alike (h : x.Represents source l) :
    x.next.1 = l.next.1.map Token.kind ∧ x.next.2.Represents source l.next.2 := by
  rcases hq : l.queue with _ | ⟨t, queue⟩
  · have hqueue : x.queue = [] := by rw [h.queue, hq, List.map_nil]
    rcases lexSolid_cases h with ⟨t, x', l', hscan, hlex, hrest, hscanned⟩ |
      ⟨cause, x', l', hscan, hlex, hrest⟩
    · rw [Lexer.next_of_lexSolid_ok hq hlex]
      simp only [next, hqueue, hscan]
      exact ⟨rfl, hrest.consumed hscanned⟩
    · rw [Lexer.next_of_lexSolid_error hq hlex]
      simp only [next, hqueue, hscan]
      exact ⟨rfl, hrest⟩
  · have hqueue : x.queue = (t.kind, t.literal?) :: queue.map Token.entry := by
      rw [h.queue, hq, List.map_cons]
      rfl
    rw [Lexer.next_of_queue hq]
    simp only [next, hqueue]
    have hrest : Represents source { x with queue := queue.map Token.entry }
        { l with queue := queue } := { h with queue := rfl }
    refine ⟨rfl, hrest.consumed fun literal ht => ?_⟩
    rw [ht, Token.literal?]

/-- Every operation leaves the cells of the lexer that it leaves. -/
theorem step_represents (s : Lexer.Step) (h : x.Represents source l) :
    (x.step s).Represents source (l.step s) := by
  cases s with
  | call c =>
      cases c with
      | peek => exact (lookahead_alike 1 h).2
      | lookahead n => exact (lookahead_alike n h).2
      | next => exact (next_alike h).2
  | lex => exact (lex_alike h).rest
  | advance => exact h.advance.2

/-- So do several of them. -/
theorem run_represents (steps : List Lexer.Step) (h : x.Represents source l) :
    (steps.foldl step x).Represents source (steps.foldl Lexer.step l) := by
  induction steps generalizing x l with
  | nil => exact h
  | cons s steps ih => exact ih (step_represents s h)

end Scanning

end IndexedLexer

end Reckoner
