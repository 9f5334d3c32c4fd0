import Reckoner.Lexer

/-!
# The Scanner and Its Surroundings

What scanning one token depends on and what it leaves alone.

A lexer has two halves. The scanner is the part that reads: the unread
characters and the position. The queue and the literal stand beside it, and
scanning neither looks at them nor changes them. `lexSolid_with` says so in one
equation: exchanging the queue and the literal before scanning is exchanging them
afterwards. Everything about looking ahead rests on it, since looking ahead is
scanning early with a different queue.

A token that cannot be read stays unreadable. The blanks in front of it are gone
after the first attempt, so the lexer is changed by that attempt and by no later
one.

Scanning moves the scanner and leaves the text where it is. The place of the scanner and
what is unread behind it always add up to the end of the text (`extent`).

## Main definitions

* `extent`: Where the text of a lexer ends.

## Theorems

* `skipBlanks_unread`: What skipping blanks leaves unread.
* `skipBlanks_eq_self`: Skipping blanks where there are none.
* `skipBlanks_skipBlanks`: Skipping blanks twice is skipping them once.
* `lexSolid_with`: Scanning ignores the queue and the literal.
* `lexSolid_literal`: Scanning keeps the literal.
* `skip_extent`, `lex_extent`, `lexSolid_extent`: Scanning does not move the end of the text.
* `lexSolid_again`: A failed attempt fails again and changes nothing more.
* `lexSolid_of_unread_nil`: At the end of the input scanning gives the end.
* `unread_nil_of_lexSolid_end`: Scanning gives the end only there.
* `next_of_queue`, `next_of_lexSolid_ok`, `next_of_lexSolid_error`: What consuming a
  token does.
* `next_cases`: All that consuming can do.
* `next_of_ends`: Where only ends are left the end is consumed.
* `next_again`: Consuming fails again where it has failed.
-/

namespace Reckoner

namespace Lexer

theorem skip_zero (l : Lexer) : l.skip 0 = l := by
  simp only [skip, List.drop_zero, Nat.zero_min, Nat.add_zero]

theorem skipBlanks_unread (l : Lexer) : l.skipBlanks.unread = l.unread.dropWhile isBlank := by
  calc l.unread.drop (l.unread.takeWhile isBlank).length
      = (l.unread.takeWhile isBlank ++ l.unread.dropWhile isBlank).drop
          (l.unread.takeWhile isBlank).length := by rw [List.takeWhile_append_dropWhile]
    _ = l.unread.dropWhile isBlank := List.drop_left

-- Where the scanner does not stand at a blank there is nothing to skip.
theorem skipBlanks_eq_self {l : Lexer} (h : ∀ c ∈ l.unread.head?, isBlank c = false) :
    l.skipBlanks = l := by
  have hnone : l.unread.takeWhile isBlank = [] := by
    rcases hu : l.unread with _ | ⟨c, rest⟩
    · rfl
    · have hc : isBlank c = false := h c (by rw [hu]; rfl)
      rw [List.takeWhile_cons_of_neg (by rw [hc]; exact Bool.false_ne_true)]
  rw [skipBlanks, hnone]
  exact skip_zero l

theorem skipBlanks_skipBlanks (l : Lexer) : l.skipBlanks.skipBlanks = l.skipBlanks := by
  refine skipBlanks_eq_self fun c hc => ?_
  have hhead := List.head?_dropWhile_not isBlank l.unread
  rw [skipBlanks_unread] at hc
  rw [Option.mem_def.mp hc] at hhead
  simpa only [Bool.not_eq_true] using hhead

/-- Scanning ignores the queue and the literal: they can be exchanged before or
    afterwards. -/
theorem lexSolid_with (l : Lexer) (queue : List Token) (literal : Option String) :
    lexSolid { l with queue := queue, literal := literal }
      = (l.lexSolid.1, { l.lexSolid.2 with queue := queue, literal := literal }) := by
  unfold lexSolid lex
  simp only [skipBlanks, skip]
  split
  · rfl
  · rfl

/-- The index at which the text of a lexer ends. -/
def extent (l : Lexer) : Nat :=
  l.position + l.unread.length

theorem skip_extent (n : Nat) (l : Lexer) : (l.skip n).extent = l.extent := by
  simp only [extent, skip, List.length_drop]
  omega

theorem lex_extent (l : Lexer) : l.lex.2.extent = l.extent := by
  unfold lex
  split
  · exact l.skip_extent _
  · rfl

theorem lexSolid_extent (l : Lexer) : l.lexSolid.2.extent = l.extent :=
  l.skipBlanks.lex_extent.trans (l.skip_extent _)

theorem lexSolid_literal (l : Lexer) : l.lexSolid.2.literal = l.literal := by
  unfold lexSolid lex
  split
  · rfl
  · rfl

-- The same with the answer in view, as it comes up where the scan is taken apart.
theorem queue_of_lexSolid {l l' : Lexer} {answer : Except LexError Token}
    (hlex : l.lexSolid = (answer, l')) : l'.queue = l.queue := by
  rw [← l.lexSolid_queue, hlex]

theorem literal_of_lexSolid {l l' : Lexer} {answer : Except LexError Token}
    (hlex : l.lexSolid = (answer, l')) : l'.literal = l.literal := by
  rw [← l.lexSolid_literal, hlex]

/-- A failed attempt to scan a token fails again and changes nothing more. -/
theorem lexSolid_again {l l' : Lexer} {cause : LexError} (h : l.lexSolid = (.error cause, l')) :
    l'.lexSolid = (.error cause, l') := by
  have hl : l' = l.skipBlanks := by
    unfold lexSolid lex at h
    split at h
    · simp only [Prod.mk.injEq, reduceCtorEq, false_and] at h
    · exact (Prod.mk.inj h).2.symm
  have hlex : l.skipBlanks.lex = (.error cause, l') := h
  rw [hl] at hlex ⊢
  rw [lexSolid, skipBlanks_skipBlanks]
  exact hlex

-- At the end of the input scanning gives the end and stays there.
theorem lexSolid_of_unread_nil {l : Lexer} (h : l.unread = []) :
    l.lexSolid.1 = .ok .endOfInput ∧ l.lexSolid.2.unread = [] := by
  have hskip : l.skipBlanks.unread = [] := by
    simp only [skipBlanks, skip, h, List.drop_nil]
  unfold lexSolid lex
  rw [hskip]
  refine ⟨rfl, ?_⟩
  simp only [Token.scan, take, skip, hskip, List.drop_nil]

theorem unread_nil_of_lexSolid_end {l : Lexer} (h : l.lexSolid.1 = .ok .endOfInput) :
    l.lexSolid.2.unread = [] := by
  unfold lexSolid lex at h ⊢
  split at h
  · rename_i t hscan
    have ht : t = .endOfInput := Except.ok.inj h
    rw [ht] at hscan
    simp only [take, skip, scan_endOfInput hscan, List.drop_nil]
  · exact absurd h (by simp only [reduceCtorEq, not_false_eq_true])

-- Consuming a queued token.
theorem next_of_queue {l : Lexer} {t : Token} {queue : List Token} (hq : l.queue = t :: queue) :
    l.next = (.ok t, consumed t { l with queue := queue }) := by
  simp only [next, hq]

-- Consuming a token that has to be scanned first.
theorem next_of_lexSolid_ok {l l' : Lexer} {t : Token} (hq : l.queue = [])
    (hlex : l.lexSolid = (.ok t, l')) : l.next = (.ok t, l'.consumed t) := by
  simp only [next, hq, hlex]

-- Consuming where no token can be scanned.
theorem next_of_lexSolid_error {l l' : Lexer} {cause : LexError} (hq : l.queue = [])
    (hlex : l.lexSolid = (.error cause, l')) : l.next = (.error cause, l') := by
  simp only [next, hq, hlex]

/-- All that consuming can do: it takes a token from the queue, or it scans one, or it
    fails to scan one. -/
theorem next_cases (l : Lexer) :
    (∃ t queue, l.queue = t :: queue ∧ l.next = (.ok t, consumed t { l with queue := queue })) ∨
      (∃ t l', l.queue = [] ∧ l.lexSolid = (.ok t, l') ∧ l'.queue = [] ∧
        l.next = (.ok t, l'.consumed t)) ∨
      ∃ cause l', l.queue = [] ∧ l.lexSolid = (.error cause, l') ∧ l'.queue = [] ∧
        l.next = (.error cause, l') := by
  rcases hq : l.queue with _ | ⟨t, queue⟩
  · rcases hlex : l.lexSolid with ⟨cause | t, l'⟩
    · have hqueue := (queue_of_lexSolid hlex).trans hq
      exact Or.inr (Or.inr ⟨cause, l', rfl, rfl, hqueue, next_of_lexSolid_error hq hlex⟩)
    · have hqueue := (queue_of_lexSolid hlex).trans hq
      exact Or.inr (Or.inl ⟨t, l', rfl, rfl, hqueue, next_of_lexSolid_ok hq hlex⟩)
  · exact Or.inl ⟨t, queue, rfl, next_of_queue hq⟩

-- A lexer with nothing left but ends hands out the end.
theorem next_of_ends {l : Lexer} (hunread : l.unread = [])
    (hqueue : ∀ t ∈ l.queue, t = .endOfInput) : l.next.1 = .ok .endOfInput := by
  have hend := (lexSolid_of_unread_nil hunread).1
  rcases l.next_cases with ⟨t, queue, hq, hnext⟩ | ⟨t, l', -, hlex, -, hnext⟩ |
    ⟨cause, l', -, hlex, -, hnext⟩
  · rw [hnext, hqueue t (by rw [hq]; exact List.mem_cons_self)]
  · rw [hlex] at hend
    rw [hnext, hend]
  · rw [hlex] at hend
    cases hend

/-- Where no token can be read, asking again gives the same answer and changes
    nothing more. -/
theorem next_again {l : Lexer} {cause : LexError} (h : l.next.1 = .error cause) :
    l.next.2.next = l.next := by
  rcases l.next_cases with ⟨t, queue, -, hnext⟩ | ⟨t, l', -, -, -, hnext⟩ |
    ⟨cause', l', -, hlex, hqueue, hnext⟩
  · rw [hnext] at h
    cases h
  · rw [hnext] at h
    cases h
  · rw [hnext]
    exact next_of_lexSolid_error hqueue (lexSolid_again hlex)

end Lexer

end Reckoner
