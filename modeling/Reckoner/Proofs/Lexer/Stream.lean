import Reckoner.Proofs.Lexer.Scanner

/-!
# Token Streams

What a lexer has to hand out, as data.

A lexer is asked for one token after another until it says that the input has
ended or that it cannot go on. `Lexer.stream` collects the answers. Number tokens
carry their literals, so a stream holds the tokens together with the texts they
were read from.

A parser looks at the next token before it consumes it. Looking scans, so it does
change the lexer; but consuming after looking is consuming
(`next_peek_eq`), which makes looking invisible to the stream. A rule of the
grammar can therefore be understood by what it does to streams, and a lexer with
tokens queued is no special case.

## Main definitions

* `TokenStream`: Tokens, and how they end.
* `TokenStream.head`: The answer to the next question.
* `TokenStream.tokens`: The tokens before the end.
* `TokenStream.prepend`: Tokens put in front of a stream, written `w ++ s`.
* `Lexer.stream`: What a lexer has to hand out.

## Theorems

* `append_append`: Putting tokens in front is associative.
* `append_left_injective`: The tokens in front can be told from the sum.
* `next_peek_eq`: Consuming after looking is consuming.
* `peek_fst`: What is seen is what is handed out.
* `stream_of_error`, `stream_of_end`, `stream_of_token`: The stream by the next
  answer.
* `next_of_stream_token`: The next answer by the stream.
* `next_induction`: Induction along consuming.
* `head_stream`: The first of a stream is the next answer.
* `stream_peek`: Looking leaves the stream.
-/

namespace Reckoner

/-- Tokens handed out one after another until the input ends or no further
    token can be read. -/
inductive TokenStream where
  | ending
  | failing (cause : LexError)
  | token (t : Token) (rest : TokenStream)
  deriving DecidableEq

namespace TokenStream

/-- The answer to a request for the next token. -/
def head : TokenStream → Except LexError Token
  | ending => .ok .endOfInput
  | failing cause => .error cause
  | token t _ => .ok t

/-- The tokens before the end. -/
def tokens : TokenStream → List Token
  | ending => []
  | failing _ => []
  | token t rest => t :: rest.tokens

/-- Some tokens put in front of a stream. -/
def prepend : List Token → TokenStream → TokenStream
  | [], s => s
  | t :: w, s => token t (prepend w s)

instance : HAppend (List Token) TokenStream TokenStream := ⟨prepend⟩

@[simp] theorem nil_append (s : TokenStream) : ([] : List Token) ++ s = s := rfl

@[simp] theorem cons_append (t : Token) (w : List Token) (s : TokenStream) :
    (t :: w) ++ s = token t (w ++ s) := rfl

theorem append_append (v w : List Token) (s : TokenStream) : (v ++ w) ++ s = v ++ (w ++ s) := by
  induction v with
  | nil => rfl
  | cons t v ih => rw [List.cons_append, cons_append, cons_append, ih]

theorem tokens_append (w : List Token) (s : TokenStream) : (w ++ s).tokens = w ++ s.tokens := by
  induction w with
  | nil => rfl
  | cons t w ih => rw [cons_append, tokens, ih, List.cons_append]

theorem append_left_injective {v w : List Token} {s : TokenStream} (h : v ++ s = w ++ s) :
    v = w := by
  have htokens := congrArg tokens h
  rw [tokens_append, tokens_append] at htokens
  exact List.append_cancel_right htokens

end TokenStream

namespace Lexer

/-- What a lexer hands out if it is asked again and again. -/
def stream (l : Lexer) : TokenStream :=
  match h : l.next.1 with
  | .error cause => .failing cause
  | .ok t =>
    if ht : t = .endOfInput then .ending
    else
      have := next_work_lt h ht
      .token t (stream l.next.2)
termination_by l.work

variable {l : Lexer}

theorem stream_of_error {cause : LexError} (h : l.next.1 = .error cause) :
    l.stream = .failing cause := by
  rw [stream]
  split
  · rename_i cause' h'
    rw [h', Except.error.injEq] at h
    rw [h]
  · rename_i t h'
    rw [h'] at h
    exact absurd h (by simp only [reduceCtorEq, not_false_eq_true])

theorem stream_of_ok {t : Token} (h : l.next.1 = .ok t) :
    l.stream = if t = .endOfInput then .ending else .token t l.next.2.stream := by
  rw [stream]
  split
  · rename_i cause h'
    rw [h'] at h
    exact absurd h (by simp only [reduceCtorEq, not_false_eq_true])
  · rename_i t' h'
    rw [h', Except.ok.injEq] at h
    subst h
    rfl

theorem stream_of_end (h : l.next.1 = .ok .endOfInput) : l.stream = .ending := by
  rw [stream_of_ok h, if_pos rfl]

theorem stream_of_token {t : Token} (h : l.next.1 = .ok t) (ht : t.isEnd = false) :
    l.stream = .token t l.next.2.stream := by
  have hne : t ≠ .endOfInput := by
    rintro rfl
    exact absurd ht.symm Bool.false_ne_true
  rw [stream_of_ok h, if_neg hne]

/-- Induction along consuming, which comes to the end or to a failure. -/
theorem next_induction {P : Lexer → Prop}
    (failed : ∀ l cause, l.next.1 = .error cause → P l)
    (ended : ∀ l, l.next.1 = .ok .endOfInput → P l)
    (token : ∀ l t, l.next.1 = .ok t → t.isEnd = false → P l.next.2 → P l) (l : Lexer) : P l := by
  induction hw : l.work using Nat.strongRecOn generalizing l with
  | ind w ih =>
      rcases hnext : l.next.1 with cause | t
      · exact failed l cause hnext
      · by_cases ht : t = .endOfInput
        · rw [ht] at hnext
          exact ended l hnext
        · have hless := next_work_lt hnext ht
          exact token l t hnext (Token.isEnd_eq_false ht) (ih _ (by omega) l.next.2 rfl)

theorem head_stream (l : Lexer) : l.stream.head = l.next.1 := by
  rcases h : l.next.1 with cause | t
  · rw [stream_of_error h, TokenStream.head]
  · by_cases ht : t = .endOfInput
    · rw [ht] at h
      rw [stream_of_end h, ht, TokenStream.head]
    · rw [stream_of_token h (Token.isEnd_eq_false ht), TokenStream.head]

/-- A token at the front of the stream is the one handed out next, and the rest
    of the stream is what the lexer hands out after it. -/
theorem next_of_stream_token {t : Token} {s : TokenStream} (h : l.stream = .token t s) :
    l.next.1 = .ok t ∧ t ≠ .endOfInput ∧ l.next.2.stream = s := by
  have hnext : l.next.1 = .ok t := by rw [← head_stream, h, TokenStream.head]
  by_cases ht : t = .endOfInput
  · rw [ht] at hnext
    rw [stream_of_end hnext] at h
    exact absurd h (by simp only [reduceCtorEq, not_false_eq_true])
  · rw [stream_of_token hnext (Token.isEnd_eq_false ht), TokenStream.token.injEq] at h
    exact ⟨hnext, ht, h.2⟩

-- The stream depends on the next answer and what comes after it only.
theorem stream_congr {l l' : Lexer} (h : l.next = l'.next) : l.stream = l'.stream := by
  rcases hnext : l'.next.1 with cause | t
  · rw [stream_of_error hnext, stream_of_error (h ▸ hnext)]
  · rw [stream_of_ok hnext, stream_of_ok (h ▸ hnext), h]

/-- Consuming a token after looking at it is consuming it. The lexer may have
    scanned for the look, but it is the same scan that consuming would have
    made. -/
theorem next_peek_eq (l : Lexer) : l.peek.2.next = l.next := by
  rcases l.next_cases with ⟨t, queue, hq, -⟩ | ⟨t, l', hq, hlex, hqueue, hnext⟩ |
    ⟨cause, l', hq, hlex, hqueue, hnext⟩
  · rw [peek_of_queue hq]
  · have hback : { l' with queue := [] } = l' := by rw [← hqueue]
    rw [peek_of_queue_nil hq, hlex, hnext, next_of_queue rfl]
    dsimp only
    rw [hback]
  · rw [peek_of_queue_nil hq, hlex, hnext]
    exact next_of_lexSolid_error hqueue (lexSolid_again hlex)

theorem peek_fst (l : Lexer) : l.peek.1 = l.next.1 := by
  rcases l.next_cases with ⟨t, queue, hq, hnext⟩ | ⟨t, l', hq, hlex, -, hnext⟩ |
    ⟨cause, l', hq, hlex, -, hnext⟩
  · rw [peek_of_queue hq, hnext]
  · rw [peek_of_queue_nil hq, hlex, hnext]
  · rw [peek_of_queue_nil hq, hlex, hnext]

theorem stream_peek (l : Lexer) : l.peek.2.stream = l.stream :=
  stream_congr l.next_peek_eq

end Lexer

end Reckoner
