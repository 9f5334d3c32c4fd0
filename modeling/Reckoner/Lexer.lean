import Reckoner.Blank
import Reckoner.Error
import Reckoner.Literal.Basic

/-!
# The Lexer

A lexer hands out the tokens of a text one at a time and scans only as far as it
is asked to. Tokens that were looked at but not consumed wait in a queue, so each
is scanned once.

The scanner works on the characters that are still unread. It decides which token
stands at the front of them, and then skips as many characters as the token
covers. That makes the two questions separate ones: `Token.scan` says what
the next token is and knows nothing of lexers, and `Lexer.skip` is the only way
in which a lexer ever moves.

An operation that fails still has a state to go on from, so every operation
returns its answer beside the lexer it leaves. Blanks before a bad character
are consumed although the character is not; tokens queued before an
unsuccessful lookahead failed stay queued.

The raw operations `lex` and `advance` move the scanner and do not look at the
queue.

`work` is what the lexer still has to hand out, counted so that looking ahead
does not raise it: unread characters, and queued tokens other than the end of the
input, which can be queued any number of times. Consuming a token lowers it
unless the token is the end. The parser ends because of that.

## Main definitions

* `Token.scan`: The token at the front of a text.
* `Lexer`: The state of a lexer.
* `Lexer.ofText`: A lexer at the start of a text.
* `Lexer.skip`: Moves the scanner over some characters.
* `Lexer.lex`: Scans one token, blanks included.
* `Lexer.lexSolid`: Scans one token behind any blanks.
* `Lexer.lookahead`: The token some places ahead.
* `Lexer.peek`: The token that is next.
* `Lexer.next`: Consumes a token.
* `Lexer.work`: What is left to hand out.

## Theorems

* `width_pos_of_scan_cons`: What is scanned in front of a character covers it.
* `scan_endOfInput`: The end is found at the end only.
* `width_pos_of_scan`: Every other token covers a character.
* `lexSolid_work_le`, `lexSolid_work_lt`: Scanning uses up characters.
* `next_work_le`, `next_work_lt`: Consuming uses up what is left.
* `lookahead_work_le`, `peek_work_le`: Looking ahead does not add to what is left.
* `peek_of_queue`, `peek_of_queue_nil`: What looking ahead by one does.
* `next_peek`: What is seen is what is consumed.
* `next_peek_work_lt`: Consuming what was seen uses up what is left.
-/

namespace Reckoner

/-- The token at the front of a text that begins at some position. At the end of the input that is
    the end, a blank is a token by itself, and otherwise the longest token is taken. -/
def Token.scan (position : Nat) (text : List Char) : Except LexError Token :=
  match text with
  | [] => .ok .endOfInput
  | c :: _ =>
    if isBlank c then .ok (.blank c)
    else if c = '(' then .ok .openParen
    else if c = ')' then .ok .closeParen
    else
      match Literal.longestPrefix? text with
      | some literal => .ok (.number (String.ofList literal))
      | none =>
        match Operator.longestPrefix? text with
        | some op => .ok (.operator op)
        | none =>
          if Operator.startsWith c then .error (.incompleteOperator position)
          else .error (.unrecognizedCharacter c position)

/-- The state of a lexer. -/
structure Lexer where
  /-- The characters the scanner has not reached. -/
  unread : List Char
  /-- How many characters the scanner has passed. -/
  position : Nat
  /-- The tokens that were scanned and not consumed, the next one first. -/
  queue : List Token
  /-- The literal of the number consumed last. -/
  literal : Option String
  /-- Every token scanned so far with the position where it starts, the latest first. Blanks and
      the end of the input are left out. -/
  scanned : List (Token × Nat)
  deriving DecidableEq

namespace Lexer

/-- A lexer at the start of a text. -/
def ofText (text : String) : Lexer :=
  { unread := text.toList, position := 0, queue := [], literal := none, scanned := [] }

/-- Moves the scanner over `n` characters, or to the end of the input if there are not as many. -/
def skip (n : Nat) (l : Lexer) : Lexer :=
  { l with unread := l.unread.drop n, position := l.position + min n l.unread.length }

/-- Moves the scanner over one character and returns the character it then stands at. -/
def advance (l : Lexer) : Option Char × Lexer :=
  ((l.skip 1).unread.head?, l.skip 1)

/-- Moves the scanner over a token that stands in front of it and takes down where it began. -/
def take (t : Token) (l : Lexer) : Lexer :=
  let scanned := if t.isSolid then (t, l.position) :: l.scanned else l.scanned
  { l.skip t.width with scanned := scanned }

/-- Scans exactly one token, which may be a blank. If none can be read the lexer does not move. -/
def lex (l : Lexer) : Except LexError Token × Lexer :=
  match Token.scan l.position l.unread with
  | .ok t => (.ok t, l.take t)
  | .error e => (.error e, l)

/-- Moves the scanner over the blanks in front of it. -/
def skipBlanks (l : Lexer) : Lexer :=
  l.skip (l.unread.takeWhile isBlank).length

/-- Scans the token behind any blanks. -/
def lexSolid (l : Lexer) : Except LexError Token × Lexer :=
  l.skipBlanks.lex

/-- Scans `n` more tokens into the queue, or as many as can be read before an error. -/
def enqueue : Nat → Lexer → Except LexError Unit × Lexer
  | 0, l => (.ok (), l)
  | n + 1, l =>
    match l.lexSolid with
    | (.ok t, l') => enqueue n { l' with queue := l'.queue ++ [t] }
    | (.error e, l') => (.error e, l')

/-- The token that is `n` places ahead, without consuming any; the next one is one place ahead, and
    also zero places. -/
def lookahead (n : Nat) (l : Lexer) : Except LexError Token × Lexer :=
  let places := max n 1
  match enqueue (places - l.queue.length) l with
  | (.ok (), l') => (.ok (l'.queue.getD (places - 1) .endOfInput), l')
  | (.error e, l') => (.error e, l')

/-- The next token, without consuming it. -/
def peek (l : Lexer) : Except LexError Token × Lexer :=
  l.lookahead 1

/-- Takes down the literal of a consumed token, if it is a number. -/
def consumed (t : Token) (l : Lexer) : Lexer :=
  { l with literal := t.literal?.or l.literal }

/-- Consumes a token. At the end of the input that is the end, every time. -/
def next (l : Lexer) : Except LexError Token × Lexer :=
  match l.queue with
  | t :: queue => (.ok t, { l with queue := queue }.consumed t)
  | [] =>
    match l.lexSolid with
    | (.ok t, l') => (.ok t, l'.consumed t)
    | (.error e, l') => (.error e, l')

/-- What is left to hand out: the unread characters and the queued tokens other than the end of the
    input. -/
def work (l : Lexer) : Nat :=
  l.unread.length + l.queue.countP (!·.isEnd)

end Lexer

/-- What is scanned in front of a character covers that character at least. -/
theorem width_pos_of_scan_cons {position : Nat} {c : Char} {rest : List Char} {t : Token}
    (h : Token.scan position (c :: rest) = .ok t) : 0 < t.width := by
  by_cases hblank : isBlank c = true
  · rw [Token.scan, if_pos hblank] at h
    cases h
    exact Nat.one_pos
  by_cases hopen : c = '('
  · rw [Token.scan, if_neg hblank, if_pos hopen] at h
    cases h
    exact Nat.one_pos
  by_cases hclose : c = ')'
  · rw [Token.scan, if_neg hblank, if_neg hopen, if_pos hclose] at h
    cases h
    exact Nat.one_pos
  rw [Token.scan, if_neg hblank, if_neg hopen, if_neg hclose] at h
  rcases hliteral : Literal.longestPrefix? (c :: rest) with _ | literal
  · rcases hoperator : Operator.longestPrefix? (c :: rest) with _ | op
    · -- No token begins here.
      simp only [hliteral, hoperator] at h
      split at h
      · cases h
      · cases h
    · simp only [hliteral, hoperator, Except.ok.injEq] at h
      rw [← h]
      exact List.length_pos_iff.mpr op.glyphs_ne_nil
  · simp only [hliteral, Except.ok.injEq] at h
    rw [← h, Token.width, Token.spelling, String.toList_ofList]
    exact List.length_pos_iff.mpr (Literal.longestPrefix?_ne_nil hliteral)

theorem scan_endOfInput {position : Nat} {text : List Char}
    (h : Token.scan position text = .ok .endOfInput) : text = [] := by
  cases text with
  | nil => rfl
  | cons c rest => exact absurd (width_pos_of_scan_cons h) (Nat.lt_irrefl 0)

theorem width_pos_of_scan {position : Nat} {text : List Char} {t : Token}
    (h : Token.scan position text = .ok t) (ht : t ≠ .endOfInput) : 0 < t.width := by
  cases text with
  | nil => exact absurd (Except.ok.inj h).symm ht
  | cons c rest => exact width_pos_of_scan_cons h

namespace Lexer

theorem lex_queue (l : Lexer) : l.lex.2.queue = l.queue := by
  unfold lex
  split <;> rfl

theorem lexSolid_queue (l : Lexer) : l.lexSolid.2.queue = l.queue :=
  l.skipBlanks.lex_queue

theorem lex_unread_le (l : Lexer) : l.lex.2.unread.length ≤ l.unread.length := by
  unfold lex
  split
  · simp [take, skip]
  · exact Nat.le_refl _

theorem lex_unread_lt {l : Lexer} {t : Token} (h : l.lex.1 = .ok t) (ht : t ≠ .endOfInput) :
    l.lex.2.unread.length < l.unread.length := by
  unfold lex at h ⊢
  split at h
  · rename_i t' hscan
    simp only [Except.ok.injEq] at h
    subst h
    have hw := width_pos_of_scan hscan ht
    have hne : l.unread ≠ [] := by
      intro hnil
      rw [hnil] at hscan
      exact ht (Except.ok.inj hscan).symm
    have hlen := List.length_pos_iff.mpr hne
    simp only [take, skip, List.length_drop]
    omega
  · cases h

theorem skipBlanks_unread_le (l : Lexer) : l.skipBlanks.unread.length ≤ l.unread.length := by
  simp [skipBlanks, skip]

theorem lexSolid_work_le (l : Lexer) : l.lexSolid.2.work ≤ l.work := by
  have h1 := l.skipBlanks.lex_unread_le
  have h2 := l.skipBlanks_unread_le
  unfold work
  rw [lexSolid_queue]
  simp only [lexSolid]
  omega

theorem lexSolid_work_lt {l : Lexer} {t : Token} (h : l.lexSolid.1 = .ok t)
    (ht : t ≠ .endOfInput) : l.lexSolid.2.work < l.work := by
  have h1 := lex_unread_lt h ht
  have h2 := l.skipBlanks_unread_le
  unfold work
  rw [lexSolid_queue]
  simp only [lexSolid]
  omega

theorem consumed_work (t : Token) (l : Lexer) : (l.consumed t).work = l.work :=
  rfl

theorem next_work_le (l : Lexer) : l.next.2.work ≤ l.work := by
  unfold next
  split
  · rename_i t queue hq
    rw [consumed_work]
    simp [work, hq, List.countP_cons]
  · have h := l.lexSolid_work_le
    split
    · rename_i t l' heq
      rw [heq] at h
      exact h
    · rename_i e l' heq
      rw [heq] at h
      exact h

theorem next_work_lt {l : Lexer} {t : Token} (h : l.next.1 = .ok t) (ht : t ≠ .endOfInput) :
    l.next.2.work < l.work := by
  unfold next at h ⊢
  split at h
  · rename_i t' queue hq
    simp only [Except.ok.injEq] at h
    subst h
    have hend : t'.isEnd = false := Token.isEnd_eq_false ht
    rw [consumed_work]
    simp [work, hq, hend]
  · split at h
    · rename_i t' l' heq
      simp only [Except.ok.injEq] at h
      subst h
      have hlt := lexSolid_work_lt (l := l) (t := t') (by rw [heq]) ht
      rw [heq] at hlt
      exact hlt
    · cases h

/-- Queueing a token that was scanned does not add to what is left. -/
theorem queued_work_le {l l' : Lexer} {t : Token} (h : l.lexSolid = (.ok t, l')) :
    work { l' with queue := l'.queue ++ [t] } ≤ l.work := by
  have hle := l.lexSolid_work_le
  have hlt := fun ht => lexSolid_work_lt (l := l) (t := t) (by rw [h]) ht
  rw [h] at hle hlt
  dsimp only at hle hlt
  by_cases ht : t = .endOfInput
  · have hqueued : work { l' with queue := l'.queue ++ [t] } = l'.work := by
      simp [work, ht, Token.isEnd]
    omega
  · have hqueued : work { l' with queue := l'.queue ++ [t] } = l'.work + 1 := by
      simp [work, Token.isEnd_eq_false ht, Nat.add_assoc]
    have hless := hlt ht
    omega

theorem enqueue_work_le (n : Nat) (l : Lexer) : (enqueue n l).2.work ≤ l.work := by
  induction n generalizing l with
  | zero => exact Nat.le_refl _
  | succ n ih =>
    have hle := l.lexSolid_work_le
    unfold enqueue
    split
    · rename_i t l' hlex
      exact Nat.le_trans (ih _) (queued_work_le hlex)
    · rename_i e l' hlex
      rw [hlex] at hle
      exact hle

/-- Looking ahead does not add to what is left. -/
theorem lookahead_work_le (n : Nat) (l : Lexer) : (l.lookahead n).2.work ≤ l.work := by
  have hle := enqueue_work_le (max n 1 - l.queue.length) l
  unfold lookahead
  dsimp only
  split
  · rename_i l' hqueued
    rw [hqueued] at hle
    exact hle
  · rename_i e l' hqueued
    rw [hqueued] at hle
    exact hle

theorem peek_work_le (l : Lexer) : l.peek.2.work ≤ l.work :=
  l.lookahead_work_le 1

/-- Looking at the next token of a lexer whose queue is not empty changes nothing. -/
theorem peek_of_queue {l : Lexer} {t : Token} {queue : List Token} (h : l.queue = t :: queue) :
    l.peek = (.ok t, l) := by
  simp [peek, lookahead, h, enqueue]

/-- Looking at the next token scans it if the queue is empty. -/
theorem peek_of_queue_nil {l : Lexer} (h : l.queue = []) :
    l.peek = match l.lexSolid with
      | (.ok t, l') => (.ok t, { l' with queue := [t] })
      | (.error e, l') => (.error e, l') := by
  rcases hlex : l.lexSolid with ⟨cause | t, l'⟩
  · simp [peek, lookahead, enqueue, h, hlex]
  · have hqueue : l'.queue = [] := by rw [← h, ← l.lexSolid_queue, hlex]
    simp [peek, lookahead, enqueue, h, hlex, hqueue]

/-- A token that was seen ahead is the token consumed next. -/
theorem next_peek {l : Lexer} {t : Token} (h : l.peek.1 = .ok t) : l.peek.2.next.1 = .ok t := by
  rcases hq : l.queue with _ | ⟨t', queue⟩
  · rw [peek_of_queue_nil hq] at h ⊢
    rcases hlex : l.lexSolid with ⟨r, l'⟩
    rw [hlex] at h
    cases r with
    | error e => cases h
    | ok t' => simpa [next] using h
  · rw [peek_of_queue hq] at h ⊢
    simpa [next, hq] using h

/-- Consuming a token that was seen ahead uses up what is left. -/
theorem next_peek_work_lt {l : Lexer} {t : Token} (h : l.peek.1 = .ok t) (ht : t ≠ .endOfInput) :
    l.peek.2.next.2.work < l.work :=
  Nat.lt_of_lt_of_le (next_work_lt (next_peek h) ht) l.peek_work_le

end Lexer

end Reckoner
