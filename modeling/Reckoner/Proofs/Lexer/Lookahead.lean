import Reckoner.Proofs.Lexer.Reachable

/-!
# Looking Ahead

Looking ahead cannot be seen from outside.

A caller sees of a lexer what `next` answers and which literal it then holds.
`answers` is what a caller sees who does nothing but consume, and two lexers with
the same answers are `Alike`. To look ahead is to scan early, one token after
another, and each of these scans leaves a lexer that is alike: as long as
there are queued tokens, consuming does not come to what was scanned, and once the
queue is used up the scan is the one that consuming would have made. A scan that
fails is no exception. It leaves a shorter queue than was asked for, and the
lexer fails again when the queue is used up.

What looking ahead answers is then read off the answers, since a token that waits in
the queue is an answer to come.

## Main definitions

* `Answer`: What a caller sees of consuming a token.
* `Foretold`: What several answers in a row amount to.
* `Lexer.answers`: What a caller sees who only consumes.
* `Lexer.answersAmong`: What a caller sees who also looks ahead.
* `Lexer.afterAll`: The lexer that several calls leave.
* `Lexer.Alike`: Two lexers that answer alike.
* `Lexer.scanAhead`: Scans one token early.

## Theorems

* `next_scanAhead`: Consuming from the queue and scanning early can be exchanged.
* `scanAhead_alike`, `enqueue_alike`, `after_alike`: Scanning early leaves a lexer
  that is alike.
* `answersAmong_eq`: Looking ahead in between changes no answer.
* `Alike.stream_eq`: Lexers that are alike have the same stream.
* `answers_of_queue`: Queued tokens are answers to come.
* `answers_of_failed_scan`: A scan that failed is an answer to come.
* `lookahead_eq_iff`: What looking ahead answers, by the answers to come.
-/

namespace Reckoner

/-- What a caller sees of consuming a token: the answer, and the literal that the
    lexer then holds. -/
abbrev Answer := Except LexError Token × Option String

/-- What is foretold if several answers are known: the last token, if all of them are
    tokens, and otherwise the first failure. -/
def Foretold : Except LexError Token → List (Except LexError Token) → Prop
  | .ok t, answers => ∃ before : List Token, answers = (before ++ [t]).map .ok
  | .error cause, answers =>
    ∃ (before : List Token) (behind : List (Except LexError Token)),
      answers = before.map .ok ++ .error cause :: behind

-- The first failure is told from what stands before it.
theorem first_failure_unique {before before' : List Token} {cause cause' : LexError}
    {behind behind' : List (Except LexError Token)}
    (h : before.map .ok ++ .error cause :: behind = before'.map .ok ++ .error cause' :: behind') :
    cause = cause' := by
  induction before generalizing before' with
  | nil =>
      cases before' with
      | nil => exact Except.error.inj (List.cons.inj h).1
      | cons t' before' => cases (List.cons.inj h).1
  | cons t before ih =>
      cases before' with
      | nil => cases (List.cons.inj h).1
      | cons t' before' => exact ih (List.cons.inj h).2

-- No list of tokens has a failure in it.
theorem failure_not_mem_tokens {before tokens : List Token} {cause : LexError}
    {behind : List (Except LexError Token)} :
    before.map .ok ++ .error cause :: behind ≠ tokens.map .ok := by
  intro heq
  have hmem : (.error cause : Except LexError Token) ∈ tokens.map .ok := by
    rw [← heq]
    exact List.mem_append_right _ List.mem_cons_self
  rcases List.mem_map.mp hmem with ⟨_, -, hok⟩
  cases hok

/-- Only one thing is foretold. -/
theorem Foretold.unique {outcome outcome' : Except LexError Token}
    {answers : List (Except LexError Token)} (h : Foretold outcome answers)
    (h' : Foretold outcome' answers) : outcome = outcome' := by
  cases outcome with
  | ok t =>
      rcases h with ⟨before, hanswers⟩
      cases outcome' with
      | ok t' =>
          rcases h' with ⟨before', hanswers'⟩
          rw [hanswers, List.map_inj_right fun _ _ => Except.ok.inj] at hanswers'
          rw [(List.cons.inj (List.append_inj' hanswers' rfl).2).1]
      | error cause' =>
          rcases h' with ⟨before', behind', hanswers'⟩
          exact absurd (hanswers'.symm.trans hanswers) failure_not_mem_tokens
  | error cause =>
      rcases h with ⟨before, behind, hanswers⟩
      cases outcome' with
      | ok t' =>
          rcases h' with ⟨before', hanswers'⟩
          exact absurd (hanswers.symm.trans hanswers') failure_not_mem_tokens
      | error cause' =>
          rcases h' with ⟨before', behind', hanswers'⟩
          rw [first_failure_unique (hanswers.symm.trans hanswers')]

namespace Lexer

/-- What a caller sees who consumes `n` tokens. -/
def answers : Nat → Lexer → List Answer
  | 0, _ => []
  | n + 1, l => (l.next.1, l.next.2.literal) :: answers n l.next.2

/-- What a caller sees of consuming who also looks ahead. -/
def answersAmong : List Call → Lexer → List Answer
  | [], _ => []
  | c :: calls, l =>
    if c = .next then (l.next.1, l.next.2.literal) :: answersAmong calls (l.after c)
    else answersAmong calls (l.after c)

/-- The lexer that several calls leave. -/
def afterAll (l : Lexer) (calls : List Call) : Lexer :=
  calls.foldl after l

/-- Two lexers that cannot be told apart: they hold the same literal, and they answer
    alike however much is consumed. -/
structure Alike (l l' : Lexer) : Prop where
  literal : l.literal = l'.literal
  answers : ∀ n, l.answers n = l'.answers n

namespace Alike

theorem refl (l : Lexer) : Alike l l :=
  ⟨rfl, fun _ => rfl⟩

theorem symm {l l' : Lexer} (h : Alike l l') : Alike l' l :=
  ⟨h.literal.symm, fun n => (h.answers n).symm⟩

theorem trans {l l' l'' : Lexer} (h : Alike l l') (h' : Alike l' l'') : Alike l l'' :=
  ⟨h.literal.trans h'.literal, fun n => (h.answers n).trans (h'.answers n)⟩

-- One answer and the answers behind it.
theorem next {l l' : Lexer} (h : Alike l l') :
    l.next.1 = l'.next.1 ∧ Alike l.next.2 l'.next.2 := by
  have hsucc : ∀ n, (l.next.1, l.next.2.literal) = (l'.next.1, l'.next.2.literal) ∧
      l.next.2.answers n = l'.next.2.answers n := fun n => List.cons.inj (h.answers (n + 1))
  rcases Prod.mk.inj (hsucc 0).1 with ⟨hanswer, hliteral⟩
  exact ⟨hanswer, hliteral, fun n => (hsucc n).2⟩

end Alike

/-- Scans one token early. -/
def scanAhead (l : Lexer) : Lexer :=
  match l.lexSolid with
  | (.ok t, l') => { l' with queue := l'.queue ++ [t] }
  | (.error _, l') => l'

theorem scanAhead_of_ok {l l' : Lexer} {t : Token} (hlex : l.lexSolid = (.ok t, l')) :
    l.scanAhead = { l' with queue := l'.queue ++ [t] } := by
  simp only [scanAhead, hlex]

theorem scanAhead_of_error {l l' : Lexer} {cause : LexError}
    (hlex : l.lexSolid = (.error cause, l')) : l.scanAhead = l' := by
  simp only [scanAhead, hlex]

theorem scanAhead_literal (l : Lexer) : l.scanAhead.literal = l.literal := by
  rcases hlex : l.lexSolid with ⟨cause | t, l'⟩
  all_goals have hliteral := literal_of_lexSolid hlex
  · rw [scanAhead_of_error hlex, hliteral]
  · rw [scanAhead_of_ok hlex, ← hliteral]

-- With nothing queued, scanning early is what peeking does.
theorem next_scanAhead_of_queue_nil {l : Lexer} (hq : l.queue = []) :
    l.scanAhead.next = l.next := by
  rw [← l.next_peek_eq, peek_of_queue_nil hq]
  rcases hlex : l.lexSolid with ⟨cause | t, l'⟩
  · rw [scanAhead_of_error hlex]
  · rw [scanAhead_of_ok hlex, queue_of_lexSolid hlex, hq, List.nil_append]

/-- With something queued, scanning early and consuming can be exchanged: the scan
    looks neither at the queue nor at the literal. -/
theorem next_scanAhead {l : Lexer} {t : Token} {queue : List Token} (hq : l.queue = t :: queue) :
    l.scanAhead.next = (l.next.1, l.next.2.scanAhead) := by
  -- What consuming changes is the queue and the literal.
  have hwith := l.lexSolid_with queue (t.literal?.or l.literal)
  rcases hlex : l.lexSolid with ⟨cause | t', l'⟩
  all_goals have hliteral := literal_of_lexSolid hlex
  all_goals have hqueue := (queue_of_lexSolid hlex).trans hq
  all_goals rw [hlex] at hwith
  · rw [scanAhead_of_error hlex, next_of_queue hq, next_of_queue hqueue]
    simp only [consumed, hliteral]
    rw [scanAhead_of_error hwith]
  · rw [scanAhead_of_ok hlex, next_of_queue hq,
      @next_of_queue _ t (queue ++ [t']) (by rw [hqueue]; rfl)]
    simp only [consumed, hliteral]
    rw [scanAhead_of_ok hwith]

/-- A lexer that has scanned one token early is like the one before. -/
theorem scanAhead_alike (l : Lexer) : Alike l.scanAhead l := by
  refine ⟨l.scanAhead_literal, fun n => ?_⟩
  -- Consuming uses up the queue, and the scan is put off until then.
  induction n generalizing l with
  | zero => rfl
  | succ n ih =>
      rcases hq : l.queue with _ | ⟨t, queue⟩
      · rw [answers, next_scanAhead_of_queue_nil hq]
        rfl
      · rw [answers, next_scanAhead hq, answers, ih, scanAhead_literal]

theorem enqueue_alike (n : Nat) (l : Lexer) : Alike (enqueue n l).2 l := by
  induction n generalizing l with
  | zero => exact Alike.refl l
  | succ n ih =>
      have hahead := l.scanAhead_alike
      rcases hlex : l.lexSolid with ⟨cause | t, l'⟩
      · -- The scans end here, and this one has left a lexer that is alike too.
        rw [scanAhead_of_error hlex] at hahead
        simp only [enqueue, hlex]
        exact hahead
      · rw [scanAhead_of_ok hlex] at hahead
        simp only [enqueue, hlex]
        exact (ih _).trans hahead

theorem lookahead_alike (n : Nat) (l : Lexer) : Alike (l.lookahead n).2 l := by
  rw [lookahead_snd]
  exact enqueue_alike _ l

/-- Alike lexers have the same stream. -/
theorem Alike.stream_eq {l l' : Lexer} (h : Alike l l') : l.stream = l'.stream := by
  induction l using next_induction generalizing l' with
  | failed l cause hnext =>
      rw [stream_of_error hnext, stream_of_error (h.next.1.symm.trans hnext)]
  | ended l hnext =>
      rw [stream_of_end hnext, stream_of_end (h.next.1.symm.trans hnext)]
  | token l t hnext ht ih =>
      rcases h.next with ⟨hanswer, hrest⟩
      rw [stream_of_token hnext ht, stream_of_token (hanswer.symm.trans hnext) ht, ih hrest]

theorem peek_alike (l : Lexer) : Alike l.peek.2 l :=
  l.lookahead_alike 1

-- Every call but consuming is a lookahead.
theorem after_alike {c : Call} (hc : c ≠ .next) (l : Lexer) : Alike (l.after c) l := by
  cases c with
  | peek => exact l.peek_alike
  | lookahead n => exact l.lookahead_alike n
  | next => exact absurd rfl hc

-- Alike lexers stay alike as long as both are only consumed from.
theorem consuming_alike (n : Nat) {l l' : Lexer} (h : Alike l l') :
    Alike (l.afterAll (List.replicate n .next)) (l'.afterAll (List.replicate n .next)) := by
  induction n generalizing l l' with
  | zero => exact h
  | succ n ih => exact ih h.next.2

/-- Looking ahead in between changes no answer. -/
theorem answersAmong_eq (calls : List Call) (l : Lexer) :
    l.answersAmong calls = l.answers (calls.count .next) := by
  induction calls generalizing l with
  | nil => rfl
  | cons c calls ih =>
      by_cases hc : c = .next
      · rw [answersAmong, if_pos hc, hc, List.count_cons_self, answers, ih]
        rfl
      · rw [answersAmong, if_neg hc, List.count_cons_of_ne hc, ih]
        exact (l.after_alike hc).answers _

/-- After some calls a lexer is like one that has only been consumed from, as often
    as it was among the calls. -/
theorem afterAll_alike (calls : List Call) (l : Lexer) :
    Alike (l.afterAll calls) (l.afterAll (List.replicate (calls.count .next) .next)) := by
  induction calls generalizing l with
  | nil => exact Alike.refl l
  | cons c calls ih =>
      by_cases hc : c = .next
      · rw [hc, List.count_cons_self]
        exact ih l.next.2
      · rw [List.count_cons_of_ne hc]
        exact (ih (l.after c)).trans (consuming_alike _ (l.after_alike hc))

-- Queued tokens are answers to come.
theorem answers_of_queue {n : Nat} {l : Lexer} (h : n ≤ l.queue.length) :
    (l.answers n).map Prod.fst = (l.queue.take n).map .ok := by
  induction n generalizing l with
  | zero => rfl
  | succ n ih =>
      rcases hq : l.queue with _ | ⟨t, queue⟩
      · rw [hq] at h
        exact absurd h (Nat.not_succ_le_zero n)
      · rw [hq, List.length_cons, Nat.succ_le_succ_iff] at h
        rw [answers, next_of_queue hq, List.map_cons, List.take_succ_cons, List.map_cons]
        rw [@ih (consumed t { l with queue := queue }) h]
        rfl

-- Where no token can be scanned, the failure is the answer behind the queued tokens.
theorem answers_of_failed_scan {n : Nat} {l : Lexer} {cause : LexError}
    (hlex : l.lexSolid = (.error cause, l)) (h : l.queue.length < n) :
    ∃ behind, (l.answers n).map Prod.fst = l.queue.map .ok ++ .error cause :: behind := by
  induction n generalizing l with
  | zero => exact absurd h (Nat.not_lt_zero _)
  | succ n ih =>
      rcases hq : l.queue with _ | ⟨t, queue⟩
      · rw [answers, next_of_lexSolid_error hq hlex]
        exact ⟨_, rfl⟩
      · rw [hq, List.length_cons] at h
        have hwith := l.lexSolid_with queue (t.literal?.or l.literal)
        rw [hlex] at hwith
        rcases @ih (consumed t { l with queue := queue }) hwith (Nat.lt_of_succ_lt_succ h) with
          ⟨behind, hbehind⟩
        rw [answers, next_of_queue hq, List.map_cons, hbehind]
        exact ⟨behind, rfl⟩

-- As many tokens as were asked for are queued, unless a scan has failed, which
-- happened before there were as many.
theorem enqueue_fills (n : Nat) (l : Lexer) :
    match enqueue n l with
    | (.ok (), l') => l'.queue.length = l.queue.length + n
    | (.error cause, l') => l'.lexSolid = (.error cause, l') ∧
        l.queue.length ≤ l'.queue.length ∧ l'.queue.length < l.queue.length + n := by
  induction n generalizing l with
  | zero => rfl
  | succ n ih =>
      rcases hlex : l.lexSolid with ⟨cause | t, l₁⟩
      all_goals have hqueue := congrArg List.length (queue_of_lexSolid hlex)
      · simp only [enqueue, hlex]
        exact ⟨lexSolid_again hlex, by omega⟩
      · have hmore : (l₁.queue ++ [t]).length = l.queue.length + 1 := by
          rw [List.length_append, List.length_singleton, hqueue]
        have hfilled := ih { l₁ with queue := l₁.queue ++ [t] }
        simp only [enqueue, hlex]
        rcases henqueue : enqueue n { l₁ with queue := l₁.queue ++ [t] } with ⟨cause | ⟨⟩, l'⟩
        · rw [henqueue] at hfilled
          dsimp only at hfilled
          exact ⟨hfilled.1, by omega⟩
        · rw [henqueue] at hfilled
          dsimp only at hfilled ⊢
          omega

theorem lookahead_foretold (n : Nat) (l : Lexer) :
    Foretold (l.lookahead n).1 ((l.answers (max n 1)).map Prod.fst) := by
  have hplaces : 1 ≤ max n 1 := Nat.le_max_right n 1
  unfold lookahead
  dsimp only
  generalize max n 1 = places at hplaces ⊢
  have halike := (enqueue_alike (places - l.queue.length) l).answers places
  have hfilled := enqueue_fills (places - l.queue.length) l
  rcases henqueue : enqueue (places - l.queue.length) l with ⟨cause | ⟨⟩, l'⟩
  · -- The failure stands behind the tokens that could be queued.
    rw [henqueue] at halike hfilled
    dsimp only at halike hfilled ⊢
    rcases hfilled with ⟨hlex, hle, hless⟩
    rcases @answers_of_failed_scan places l' cause hlex (by omega) with ⟨behind, hbehind⟩
    refine ⟨l'.queue, behind, ?_⟩
    rw [← halike, hbehind]
  · -- All the answers asked about are queued.
    rw [henqueue] at halike hfilled
    dsimp only at halike hfilled ⊢
    have hlast : places - 1 < l'.queue.length := by omega
    refine ⟨l'.queue.take (places - 1), ?_⟩
    rw [← halike, answers_of_queue (by omega), List.getD_eq_getElem?_getD,
      List.getElem?_eq_getElem hlast, Option.getD_some, List.take_append_getElem hlast,
      Nat.sub_add_cancel hplaces]

/-- Looking ahead answers what the answers to come foretell. -/
theorem lookahead_eq_iff (n : Nat) (l : Lexer) (outcome : Except LexError Token) :
    (l.lookahead n).1 = outcome ↔ Foretold outcome ((l.answers (max n 1)).map Prod.fst) := by
  have hforetold := l.lookahead_foretold n
  constructor
  · intro h
    rw [← h]
    exact hforetold
  · intro h
    exact hforetold.unique h

end Lexer

end Reckoner
