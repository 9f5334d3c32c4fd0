import Reckoner.Proofs.Parser.Descent

/-!
# The Grammar

The grammar as a relation, and that the rules of the parser read it.

`Derives level w e` says that the tokens `w` are an expression of a level and that
`e` is its tree. There is one constructor for each way to form an expression, and
none of them knows what stands behind the tokens or how a parser would find them.
A binary level is an operand and any number of links, each an operator of the level
with an operand of the next tighter one; the tree hangs the links onto the first
operand from left to right.

A parser reads an expression from the front of a stream, so it also has to decide
where the expression ends. It takes as much as it can: `Level.StopsBefore` is what
has to be true of the rest. For a binary level the next token must be there to be
seen, and it must not be an operator of the level or of a tighter one, since that
would have gone on with the expression. Signed operands and atoms end by
themselves and nothing is asked of what follows.

Together, `Level.Splits` cuts a stream into an expression and a rest. A rule succeeds
exactly if its stream can be cut, it leaves exactly the rest, and there is one cut
at most.

## Main definitions

* `Link`: An operator and the operand behind it.
* `Derives`: The tokens are an expression of the level with this tree.
* `Level.StopsBefore`: An expression of the level ends before this stream.
* `Level.Accepts`: The rule of a level reads these tokens as this tree.
* `Level.Splits`: A stream is an expression of the level and a rest.

## Theorems

* `Derives.loosen`, `Derives.join`: A binary level read as a rule that begins with
  itself.
* `StopsBefore.tighter`, `stopsBefore_of_tighter`: The end of an expression and the
  end of its last operand.
* `read_sound`: What a rule reads is an expression.
* `accepts_of_derives`: Every expression is read.
* `read_eq_ok_iff_splits`: A rule succeeds exactly if the stream can be cut, and then
  leaves the rest.
-/

namespace Reckoner

/-- An operator and the operand behind it, with the tokens of the operand. -/
structure Link where
  op : Operator
  operandTokens : List Token
  operand : Expr

namespace Link

/-- The tokens of a link. -/
def tokens (link : Link) : List Token :=
  .operator link.op :: link.operandTokens

/-- Hangs a link onto the tree before it. -/
def joinTo (left : Expr) (link : Link) : Expr :=
  .binary link.op left link.operand

end Link

/-- The tokens are an expression of the level, and this is its tree. -/
inductive Derives : Level → List Token → Expr → Prop
  | number (literal : String) : Derives .atom [.number literal] (.number literal)
  | group {w : List Token} {body : Expr} (hbody : Derives .sum w body) :
      Derives .atom (.openParen :: (w ++ [.closeParen])) (.group body)
  | sign {op : Operator} {w : List Token} {operand : Expr} (hop : op.isSign = true)
      (hoperand : Derives .sign w operand) :
      Derives .sign (.operator op :: w) (.unary op operand)
  | unsigned {w : List Token} {e : Expr} (hatom : Derives .atom w e) : Derives .sign w e
  | chain {level : Level} {w : List Token} {first : Expr} {links : List Link}
      (hlevel : level.isBinary = true) (hfirst : Derives level.tighter w first)
      (hops : ∀ link ∈ links, level.joins link.op = true)
      (hlinks : ∀ link ∈ links, Derives level.tighter link.operandTokens link.operand) :
      Derives level (w ++ links.flatMap Link.tokens) (links.foldl Link.joinTo first)

namespace Derives

-- An expression of a tighter level is one of each binary level above it.
theorem loosen {level : Level} {w : List Token} {e : Expr} (hlevel : level.isBinary = true)
    (h : Derives level.tighter w e) : Derives level w e := by
  have hchain := @chain level w e [] hlevel h nofun nofun
  rw [List.flatMap_nil, List.append_nil] at hchain
  exact hchain

-- One more link hangs itself onto what stands before it.
theorem join {level : Level} {op : Operator} {v w : List Token} {left right : Expr}
    (hop : level.joins op = true) (hleft : Derives level v left)
    (hright : Derives level.tighter w right) :
    Derives level (v ++ .operator op :: w) (.binary op left right) := by
  have hlevel := isBinary_of_joins hop
  cases hleft with
  | number literal => exact absurd hlevel Bool.false_ne_true
  | group hbody => exact absurd hlevel Bool.false_ne_true
  | sign hsign hoperand => exact absurd hlevel Bool.false_ne_true
  | unsigned hatom => exact absurd hlevel Bool.false_ne_true
  | @chain _ v first links _ hfirst hops hlinks =>
      have hchain := @chain level v first (links ++ [⟨op, w, right⟩]) hlevel hfirst
        (List.forall_mem_append.mpr ⟨hops, List.forall_mem_singleton.mpr hop⟩)
        (List.forall_mem_append.mpr ⟨hlinks, List.forall_mem_singleton.mpr hright⟩)
      rw [List.flatMap_append, List.foldl_append, List.flatMap_singleton,
        ← List.append_assoc] at hchain
      exact hchain

end Derives

namespace Level

/-- An expression of the level ends before this stream. -/
def StopsBefore (level : Level) (rest : TokenStream) : Prop :=
  level.isBinary = true →
    ∃ t, rest.head = .ok t ∧ ∀ op, t = .operator op → op.level.rank < level.rank

/-- The rule of a level reads these tokens as this tree, whatever follows, if the
    expression ends there. -/
def Accepts (level : Level) (w : List Token) (e : Expr) : Prop :=
  ∀ (l : Lexer) (rest : TokenStream), l.stream = w ++ rest → level.StopsBefore rest →
    ∃ l', level.read l = (.ok e, l') ∧ l'.stream = rest

/-- A stream is an expression of the level and a rest. -/
structure Splits (level : Level) (whole : TokenStream) (w : List Token) (e : Expr)
    (rest : TokenStream) : Prop where
  whole_eq : whole = w ++ rest
  derives : Derives level w e
  stops : level.StopsBefore rest

end Level

theorem rank_tighter {level : Level} (h : level.isBinary = true) :
    level.tighter.rank = level.rank + 1 := by
  cases level with
  | sum => rfl
  | product => rfl
  | power => rfl
  | sign => exact absurd h Bool.false_ne_true
  | atom => exact absurd h Bool.false_ne_true

-- An operator is of the level that it joins, told by the ranks.
theorem joins_iff_rank (level : Level) (op : Operator) :
    level.joins op = true ↔ op.level.rank = level.rank := by
  cases level with
  | _ => cases op with
    | _ => decide

theorem operator_level_rank_le (op : Operator) : op.level.rank ≤ 3 := by
  cases op with
  | _ => decide

-- Where an expression ends its last operand ends.
theorem Level.StopsBefore.tighter {level : Level} {rest : TokenStream}
    (h : level.StopsBefore rest) : level.tighter.StopsBefore rest := by
  intro hbinary
  have hlevel : level.isBinary = true := by
    cases level with
    | sum => rfl
    | product => rfl
    | power => rfl
    | sign => exact hbinary
    | atom => exact hbinary
  rcases h hlevel with ⟨t, hhead, hop⟩
  refine ⟨t, hhead, fun op ht => ?_⟩
  have hless := hop op ht
  rw [rank_tighter hlevel]
  omega

-- Where an operand ends the expression ends, unless an operator of the level follows.
theorem stopsBefore_of_tighter {level : Level} {rest : TokenStream} {t : Token}
    (h : level.tighter.StopsBefore rest) (hhead : rest.head = .ok t)
    (hop : t.operatorIf? level.joins = none) : level.StopsBefore rest := by
  intro hlevel
  refine ⟨t, hhead, fun op ht => ?_⟩
  have hne : op.level.rank ≠ level.rank := by
    intro hrank
    have hsome := Token.operatorIf?_eq_some.mpr ⟨ht, (joins_iff_rank level op).mpr hrank⟩
    rw [hop] at hsome
    exact absurd hsome (by simp only [reduceCtorEq, not_false_eq_true])
  -- The operands of the tightest binary level ask for nothing, but no operator is
  -- of a tighter level than that.
  have hle : op.level.rank ≤ level.rank := by
    by_cases htight : level.tighter.isBinary = true
    · rcases h htight with ⟨t', hhead', hless⟩
      rw [hhead, Except.ok.injEq] at hhead'
      have hrank := hless op (hhead' ▸ ht)
      rw [rank_tighter hlevel] at hrank
      omega
    · have hmax := operator_level_rank_le op
      cases level with
      | sum => exact absurd rfl htight
      | product => exact absurd rfl htight
      | power => exact hmax
      | sign => exact absurd hlevel Bool.false_ne_true
      | atom => exact absurd hlevel Bool.false_ne_true
  omega

-- An operand ends before the operators of its level.
theorem stopsBefore_operator {level : Level} {op : Operator} (s : TokenStream)
    (hop : level.joins op = true) : level.tighter.StopsBefore (.token (.operator op) s) := by
  intro _
  refine ⟨.operator op, rfl, fun op' hop' => ?_⟩
  rw [Token.operator.injEq] at hop'
  rw [← hop', (joins_iff_rank level op).mp hop, rank_tighter (isBinary_of_joins hop)]
  exact Nat.lt_succ_self _

-- An operand ends before the links behind it: before the operator of the first one, or
-- where the whole chain ends if there is none.
theorem stopsBefore_links {level : Level} {rest : TokenStream} (links : List Link)
    (hops : ∀ link ∈ links, level.joins link.op = true) (hstops : level.StopsBefore rest) :
    level.tighter.StopsBefore (links.flatMap Link.tokens ++ rest) := by
  cases links with
  | nil => exact hstops.tighter
  | cons link links => exact stopsBefore_operator _ (hops link List.mem_cons_self)

theorem stopsBefore_closeParen (level : Level) (s : TokenStream) :
    level.StopsBefore (.token .closeParen s) :=
  fun _ => ⟨.closeParen, rfl, fun _ h => nomatch h⟩

/-- What a chain reads behind an operand that has ended is links, as many as there
    are. -/
def ChainReadsLinks (level : Level) (l : Lexer) : Prop :=
  ∀ (left e : Expr) (l' : Lexer), level.tighter.StopsBefore l.stream →
    level.readChain left l = (.ok e, l') →
    ∃ links : List Link, l.stream = links.flatMap Link.tokens ++ l'.stream ∧
      (∀ link ∈ links, level.joins link.op = true) ∧
      (∀ link ∈ links, Derives level.tighter link.operandTokens link.operand) ∧
      e = links.foldl Link.joinTo left ∧ level.StopsBefore l'.stream

/-- What a rule reads is an expression of its level, and it stops where the
    expression ends. -/
def RuleReadsExpression (level : Level) (l : Lexer) : Prop :=
  ∀ (e : Expr) (l' : Lexer), level.read l = (.ok e, l') →
    ∃ w, level.Splits l.stream w e l'.stream

theorem atom_readsExpression (l : Lexer)
    (ih : l.next.1 = .ok .openParen → RuleReadsExpression .sum l.next.2) :
    RuleReadsExpression .atom l := by
  intro e l' hread
  have hstops : ∀ rest : TokenStream, Level.atom.StopsBefore rest :=
    fun _ h => absurd h Bool.false_ne_true
  rw [read_atom_of_next] at hread
  split at hread
  · simp only [Prod.mk.injEq, reduceCtorEq, false_and] at hread
  · simp only [Prod.mk.injEq, reduceCtorEq, false_and] at hread
  · rename_i literal hnext
    simp only [Prod.mk.injEq, Except.ok.injEq] at hread
    rw [← hread.1, ← hread.2]
    exact ⟨_, Lexer.stream_of_token hnext rfl, Derives.number literal, hstops _⟩
  · rename_i hnext
    rcases continueWith_eq_ok hread with ⟨body, inner, hbody, hclose⟩
    rcases ih hnext body inner hbody with ⟨w, hwhole, hderives, -⟩
    unfold closeGroup at hclose
    split at hclose
    · simp only [Prod.mk.injEq, reduceCtorEq, false_and] at hclose
    · rename_i hparen
      simp only [Prod.mk.injEq, Except.ok.injEq] at hclose
      rw [← hclose.1, ← hclose.2]
      refine ⟨.openParen :: (w ++ [.closeParen]), ?_, Derives.group hderives, hstops _⟩
      rw [Lexer.stream_of_token hnext rfl, hwhole, Lexer.stream_of_token hparen rfl,
        TokenStream.cons_append, TokenStream.append_append]
      rfl
    · simp only [Prod.mk.injEq, reduceCtorEq, false_and] at hclose
  · simp only [Prod.mk.injEq, reduceCtorEq, false_and] at hread

theorem sign_readsExpression (l : Lexer)
    (ihSign : ∀ op, l.next.1 = .ok (.operator op) → op.isSign = true →
      RuleReadsExpression .sign l.next.2)
    (ihAtom : RuleReadsExpression .atom l.peek.2) : RuleReadsExpression .sign l := by
  intro e l' hread
  have hstops : ∀ rest : TokenStream, Level.sign.StopsBefore rest :=
    fun _ h => absurd h Bool.false_ne_true
  rw [read_sign_of_next] at hread
  split at hread
  · simp only [Prod.mk.injEq, reduceCtorEq, false_and] at hread
  · rename_i t hnext
    split at hread
    · rcases ihAtom e l' hread with ⟨w, hwhole, hderives, -⟩
      rw [Lexer.stream_peek] at hwhole
      exact ⟨w, hwhole, Derives.unsigned hderives, hstops _⟩
    · rename_i op hop
      rcases Token.operatorIf?_eq_some.mp hop with ⟨rfl, hsign⟩
      rcases continueWith_eq_ok hread with ⟨operand, rest, hoperand, hunary⟩
      simp only [Prod.mk.injEq, Except.ok.injEq] at hunary
      rw [← hunary.1, ← hunary.2]
      rcases ihSign op hnext hsign operand rest hoperand with ⟨w, hwhole, hderives, -⟩
      refine ⟨.operator op :: w, ?_, Derives.sign hsign hderives, hstops _⟩
      rw [Lexer.stream_of_token hnext rfl, hwhole, TokenStream.cons_append]

theorem binary_readsExpression (level : Level) (l : Lexer) (hlevel : level.isBinary = true)
    (ih : RuleReadsExpression level.tighter l)
    (ihChain : ∀ first rest, level.tighter.read l = (.ok first, rest) →
      ChainReadsLinks level rest) : RuleReadsExpression level l := by
  intro e l' hread
  rw [read_binary hlevel] at hread
  rcases continueWith_eq_ok hread with ⟨first, rest, hfirst, hchain⟩
  rcases ih first rest hfirst with ⟨w, hwhole, hderives, hends⟩
  rcases ihChain first rest hfirst first e l' hends hchain with
    ⟨links, hrest, hops, hlinks, he, hstops⟩
  refine ⟨w ++ links.flatMap Link.tokens, ?_, ?_, hstops⟩
  · rw [hwhole, hrest, TokenStream.append_append]
  · rw [he]
    exact Derives.chain hlevel hderives hops hlinks

theorem chain_readsLinks (level : Level) (l : Lexer)
    (ih : ∀ op, l.next.1 = .ok (.operator op) → level.joins op = true →
      RuleReadsExpression level.tighter l.next.2 ∧
        ∀ right rest, level.tighter.read l.next.2 = (.ok right, rest) →
          ChainReadsLinks level rest) : ChainReadsLinks level l := by
  intro left e l' hends hread
  rw [readChain_of_next] at hread
  split at hread
  · simp only [Prod.mk.injEq, reduceCtorEq, false_and] at hread
  · rename_i t hnext
    split at hread
    · rename_i hop
      -- No further link: the chain ends where its last operand has ended.
      simp only [Prod.mk.injEq, Except.ok.injEq] at hread
      have hhead : l.stream.head = .ok t := by rw [Lexer.head_stream, hnext]
      rw [← hread.1, ← hread.2, Lexer.stream_peek]
      exact ⟨[], rfl, nofun, nofun, rfl, stopsBefore_of_tighter hends hhead hop⟩
    · rename_i op hop
      rcases Token.operatorIf?_eq_some.mp hop with ⟨rfl, hjoins⟩
      rcases ih op hnext hjoins with ⟨ihOperand, ihRest⟩
      rcases continueWith_eq_ok hread with ⟨right, rest, hright, hchain⟩
      rcases ihOperand right rest hright with ⟨w, hwhole, hderives, hends'⟩
      rcases ihRest right rest hright (.binary op left right) e l' hends' hchain with
        ⟨links, hrest, hops, hlinks, he, hstops⟩
      refine ⟨⟨op, w, right⟩ :: links, ?_, ?_, ?_, he, hstops⟩
      · rw [Lexer.stream_of_token hnext rfl, hwhole, hrest, ← TokenStream.append_append]
        rfl
      · exact List.forall_mem_cons.mpr ⟨hjoins, hops⟩
      · exact List.forall_mem_cons.mpr ⟨hderives, hlinks⟩

/-- What a rule reads is an expression of its level, and what it leaves is a stream
    before which such an expression ends. -/
theorem read_sound (level : Level) (l : Lexer) : RuleReadsExpression level l :=
  (read_induction atom_readsExpression sign_readsExpression binary_readsExpression
    chain_readsLinks).1 level l

-- An atom does not begin with a sign.
theorem atom_begins {w : List Token} {e : Expr} (h : Derives .atom w e) :
    ∃ t w', w = t :: w' ∧ t.operatorIf? Operator.isSign = none := by
  cases h with
  | number literal => exact ⟨_, _, rfl, rfl⟩
  | group hbody => exact ⟨_, _, rfl, rfl⟩
  | chain hlevel => exact absurd hlevel Bool.false_ne_true

-- A chain reads the links in front of it and ends behind the last one.
theorem readChain_links {level : Level} (hlevel : level.isBinary = true) (links : List Link)
    (hops : ∀ link ∈ links, level.joins link.op = true)
    (haccepts : ∀ link ∈ links, level.tighter.Accepts link.operandTokens link.operand) :
    ∀ (left : Expr) (l : Lexer) (rest : TokenStream),
      l.stream = links.flatMap Link.tokens ++ rest → level.StopsBefore rest →
      ∃ l', level.readChain left l = (.ok (links.foldl Link.joinTo left), l') ∧
        l'.stream = rest := by
  induction links with
  | nil =>
      intro left l rest hstream hstops
      rcases hstops hlevel with ⟨t, hhead, hless⟩
      have hnext : l.next.1 = .ok t := by
        rw [← Lexer.head_stream, hstream, List.flatMap_nil, TokenStream.nil_append, hhead]
      have hnone : t.operatorIf? level.joins = none := by
        rw [Option.eq_none_iff_forall_ne_some]
        intro op hop
        rcases Token.operatorIf?_eq_some.mp hop with ⟨ht, hjoins⟩
        have hrank := hless op ht
        rw [(joins_iff_rank level op).mp hjoins] at hrank
        exact Nat.lt_irrefl _ hrank
      refine ⟨l.peek.2, ?_, by rw [Lexer.stream_peek]; exact hstream⟩
      rw [readChain_of_next, hnext]
      simp only [hnone, List.foldl_nil]
  | cons link links ih =>
      intro left l rest hstream hstops
      rcases List.forall_mem_cons.mp hops with ⟨hjoins, hops'⟩
      rcases List.forall_mem_cons.mp haccepts with ⟨haccept, haccepts'⟩
      rw [List.flatMap_cons, Link.tokens, TokenStream.append_append,
        TokenStream.cons_append] at hstream
      rcases Lexer.next_of_stream_token hstream with ⟨hnext, -, hrest⟩
      rcases haccept l.next.2 _ hrest (stopsBefore_links links hops' hstops) with
        ⟨l₁, hoperand, hstream₁⟩
      rcases ih hops' haccepts' (link.joinTo left) l₁ rest hstream₁ hstops with
        ⟨l', hchain, hstream'⟩
      refine ⟨l', ?_, hstream'⟩
      have hsome := Token.operatorIf?_eq_some.mpr ⟨rfl, hjoins⟩
      rw [readChain_of_next, hnext]
      simp only [hsome, hoperand, continueWith_ok]
      exact hchain

/-- Every expression of a level is read by its rule, and the rule consumes exactly
    its tokens. -/
theorem accepts_of_derives {level : Level} {w : List Token} {e : Expr}
    (h : Derives level w e) : level.Accepts w e := by
  induction h with
  | number literal =>
      intro l rest hstream _
      rcases Lexer.next_of_stream_token hstream with ⟨hnext, -, hrest⟩
      refine ⟨l.next.2, ?_, hrest⟩
      rw [read_atom_of_next, hnext]
  | group _ ih =>
      intro l rest hstream _
      rw [TokenStream.cons_append, TokenStream.append_append] at hstream
      rcases Lexer.next_of_stream_token hstream with ⟨hopen, -, hinside⟩
      rcases ih l.next.2 _ hinside (stopsBefore_closeParen _ _) with ⟨inner, hbody, hbehind⟩
      rcases Lexer.next_of_stream_token hbehind with ⟨hclose, -, hrest⟩
      refine ⟨inner.next.2, ?_, hrest⟩
      rw [read_atom_of_next, hopen]
      simp only [hbody, continueWith_ok, closeGroup, hclose]
  | sign hop _ ih =>
      intro l rest hstream hstops
      rcases Lexer.next_of_stream_token hstream with ⟨hnext, -, hbehind⟩
      rcases ih l.next.2 rest hbehind hstops with ⟨l', hoperand, hrest⟩
      refine ⟨l', ?_, hrest⟩
      have hsome := Token.operatorIf?_eq_some.mpr ⟨rfl, hop⟩
      rw [read_sign_of_next, hnext]
      simp only [hsome, hoperand, continueWith_ok]
  | unsigned hatom ih =>
      intro l rest hstream _
      rcases atom_begins hatom with ⟨t, w', rfl, hnone⟩
      rcases Lexer.next_of_stream_token hstream with ⟨hnext, -, -⟩
      rw [← l.stream_peek] at hstream
      rcases ih l.peek.2 rest hstream nofun with ⟨l', hread, hrest⟩
      refine ⟨l', ?_, hrest⟩
      rw [read_sign_of_next, hnext]
      simp only [hnone, hread]
  | @chain level w first links hlevel _ hops _ ihFirst ihLinks =>
      intro l rest hstream hstops
      rw [TokenStream.append_append] at hstream
      rcases ihFirst l _ hstream (stopsBefore_links links hops hstops) with ⟨l₁, hfirst, hlinks⟩
      rw [read_binary hlevel, hfirst, continueWith_ok]
      exact readChain_links hlevel links hops ihLinks first l₁ rest hlinks hstops

/-- A rule succeeds exactly if the stream can be cut into an expression of its level
    and a rest before which the expression ends. It leaves exactly that rest, and
    there is no other way to cut the stream. -/
theorem read_eq_ok_iff_splits (level : Level) (l : Lexer) :
    (∀ e, (level.read l).1 = .ok e ↔ ∃ w rest, level.Splits l.stream w e rest) ∧
      ∀ w e rest, level.Splits l.stream w e rest →
        (level.read l).2.stream = rest ∧
          ∀ w' e' rest', level.Splits l.stream w' e' rest' → w' = w ∧ e' = e ∧ rest' = rest := by
  have hread : ∀ {w e rest}, level.Splits l.stream w e rest →
      (level.read l).1 = .ok e ∧ (level.read l).2.stream = rest := by
    intro w e rest h
    rcases accepts_of_derives h.derives l rest h.whole_eq h.stops with ⟨l', hread, hrest⟩
    rw [hread]
    exact ⟨rfl, hrest⟩
  refine ⟨fun e => ⟨fun h => ?_, fun ⟨w, rest, h⟩ => (hread h).1⟩, fun w e rest h => ?_⟩
  · rcases read_sound level l e (level.read l).2 (by rw [← h]) with ⟨w, hsplits⟩
    exact ⟨w, _, hsplits⟩
  · refine ⟨(hread h).2, fun w' e' rest' h' => ?_⟩
    have htree : e' = e := by
      have hok := (hread h').1
      rw [(hread h).1, Except.ok.injEq] at hok
      exact hok.symm
    have hrest : rest' = rest := (hread h').2.symm.trans (hread h).2
    have hwhole := h'.whole_eq.symm.trans h.whole_eq
    rw [hrest] at hwhole
    exact ⟨TokenStream.append_left_injective hwhole, htree, hrest⟩

/-- The product at the front of a sum is read up to the `+`, also by a lexer that
    has looked further ahead than that. -/
theorem product_read_before_sum :
    Level.product.Splits ((Lexer.ofText "2*3+4").lookahead 5).2.stream
        [.number "2", .operator .multiply, .number "3"]
        (.binary .multiply (.number "2") (.number "3"))
        (.token (.operator .add) (.token (.number "4") .ending)) ∧
      (Level.product.read ((Lexer.ofText "2*3+4").lookahead 5).2).2.stream
        = .token (.operator .add) (.token (.number "4") .ending) := by
  have hnumber : ∀ literal, Derives .power [.number literal] (.number literal) :=
    fun literal => @Derives.loosen .power _ _ rfl (Derives.unsigned (Derives.number literal))
  have hsplits : Level.product.Splits ((Lexer.ofText "2*3+4").lookahead 5).2.stream
      [.number "2", .operator .multiply, .number "3"]
      (.binary .multiply (.number "2") (.number "3"))
      (.token (.operator .add) (.token (.number "4") .ending)) :=
    { whole_eq := by decide +kernel
      derives := Derives.join rfl (@Derives.loosen .product _ _ rfl (hnumber "2")) (hnumber "3")
      stops := fun _ => ⟨_, rfl, fun op hop => by cases hop; decide⟩ }
  exact ⟨hsplits, ((read_eq_ok_iff_splits .product _).2 _ _ _ hsplits).1⟩

end Reckoner
