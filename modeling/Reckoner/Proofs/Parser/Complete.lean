import Reckoner.Proofs.Lexer.Cutting
import Reckoner.Proofs.Parser.Canonical

/-!
# Complete Texts

Texts that are one expression and nothing else, and what becomes of them when they are
joined.

Reading a text stops where its expression stops. A text is complete if nothing stands
there any more. For such a text the parser and the lexer can be forgotten: a text is
complete with some tree exactly if the tree is ordered and can be written and the text
is cut into the tokens of the tree (`complete_iff`). Blanks may stand anywhere
between the tokens, and at both ends.

Complete texts are therefore put together by putting together their trees and their tokens
side by side. The trees have to fit, which is a matter of levels. The tokens
always do, although no blanks are put between them: an expression ends with a number
or a parenthesis, which no operator goes on with, and it never begins with a star,
so a star in front of one stays what it is.

## Main definitions

* `Complete`: A text is one expression with this tree and nothing else.

## Theorems

* `Derives.tokens_eq`: A tree is derived from its own tokens.
* `complete_iff`: Completeness by tree and tokens.
* `endsBefore_of_mem_getLast?`, `head_ne_star`: How expressions end and begin.
* `Complete.join`, `Complete.sign`, `Complete.group`: Complete texts put together.
-/

namespace Reckoner

/-- A text is one expression with this tree and nothing else: the tree is read, and the
    token behind it is the end. -/
structure Complete (source : String) (e : Expr) : Prop where
  parse_eq : parse source = .ok (.statement e)
  next_eq : (Lexer.ofText source).readStatement.2.next.1 = .ok .endOfInput

-- The tokens of a chain are those of its first operand and of its links.
theorem tokens_foldl_joinTo (links : List Link)
    (hlinks : ∀ link ∈ links, link.operand.tokens = link.operandTokens) (first : Expr) :
    (links.foldl Link.joinTo first).tokens = first.tokens ++ links.flatMap Link.tokens := by
  induction links generalizing first with
  | nil => exact (List.append_nil _).symm
  | cons link links ih =>
      rcases List.forall_mem_cons.mp hlinks with ⟨hlink, hlinks'⟩
      rw [List.foldl_cons, ih hlinks' (link.joinTo first), Link.joinTo, Expr.tokens, hlink,
        List.flatMap_cons, Link.tokens, List.append_assoc]

/-- A tree is derived from its own tokens and from no others. -/
theorem Derives.tokens_eq {level : Level} {w : List Token} {e : Expr} (h : Derives level w e) :
    e.tokens = w := by
  induction h with
  | number literal => rfl
  | group _ ih => rw [Expr.tokens, ih]
  | sign _ _ ih => rw [Expr.tokens, ih]
  | unsigned _ ih => exact ih
  | chain _ _ _ _ ihFirst ihLinks => rw [tokens_foldl_joinTo _ ihLinks, ihFirst]

/-- A text is complete with a tree exactly if the tree is ordered and can be written and
    the text is cut into its tokens. -/
theorem complete_iff {source : String} {e : Expr} :
    Complete source e ↔ e.Ordered ∧ e.Writable ∧ Tokenizes source.toList e.tokens [] := by
  constructor
  · rintro ⟨hparse, hnext⟩
    have hcanonical := canonical_of_parse hparse
    refine ⟨hcanonical.1, hcanonical.2, ?_⟩
    rcases readStatement_eq_ok.mp hparse with ⟨body, hbody, hread⟩
    rw [← Expr.statement.inj hbody] at hread
    rcases read_sound .sum (Lexer.ofText source) e _ (Prod.ext hread rfl) with
      ⟨w, hwhole, hderives, -⟩
    have hending : (Level.sum.read (Lexer.ofText source)).2.next.1 = .ok .endOfInput := by
      rw [readStatement_eq, ← Prod.eta (Level.sum.read (Lexer.ofText source)), hread] at hnext
      exact hnext
    rw [hderives.tokens_eq]
    refine @Lexer.tokenizes_of_stream (Lexer.ofText source) w rfl ?_
    rw [hwhole, Lexer.stream_of_end hending]
  · rintro ⟨hordered, hwritable, htokens⟩
    have hderives := derives_of_ordered hordered hwritable (sum_rank_le e.level)
    have hstops : Level.sum.StopsBefore .ending := fun _ => ⟨.endOfInput, rfl, nofun⟩
    rcases accepts_of_derives hderives _ _ (stream_ofText htokens) hstops with
      ⟨l', hread, hending⟩
    refine ⟨readStatement_eq_ok.mpr ⟨e, rfl, congrArg Prod.fst hread⟩, ?_⟩
    rw [readStatement_eq, hread, continueWith_ok, ← Lexer.head_stream, hending]
    rfl

namespace Expr

-- An expression begins with a number, a parenthesis or a sign.
theorem tokens_begin {e : Expr} (h : e.Writable) :
    ∃ t w, e.tokens = t :: w ∧ t ≠ .operator .multiply ∧ t ≠ .operator .power := by
  induction e with
  | statement body ih => exact ih h
  | group body _ => exact ⟨_, _, rfl, nofun, nofun⟩
  | number literal => exact ⟨_, _, rfl, nofun, nofun⟩
  | unary op operand _ =>
      refine ⟨_, _, rfl, ?_, ?_⟩
      · intro hop
        rw [Token.operator.inj hop] at h
        exact absurd h.1 Bool.false_ne_true
      · intro hop
        rw [Token.operator.inj hop] at h
        exact absurd h.1 Bool.false_ne_true
  | binary op left right ihLeft _ =>
      rcases ihLeft h.1 with ⟨t, w, htokens, hne⟩
      exact ⟨t, w ++ .operator op :: right.tokens, by rw [tokens, htokens, List.cons_append], hne⟩

-- It ends with a number or a closing parenthesis.
theorem tokens_end (e : Expr) :
    ∃ w t, e.tokens = w ++ [t] ∧ (t = .closeParen ∨ ∃ literal, t = .number literal) := by
  induction e with
  | statement body ih => exact ih
  | group body _ => exact ⟨.openParen :: body.tokens, .closeParen, rfl, Or.inl rfl⟩
  | number literal => exact ⟨[], .number literal, rfl, Or.inr ⟨literal, rfl⟩⟩
  | unary op operand ih =>
      rcases ih with ⟨w, t, htokens, hlast⟩
      exact ⟨.operator op :: w, t, by rw [tokens, htokens, List.cons_append], hlast⟩
  | binary op left right _ ihRight =>
      rcases ihRight with ⟨w, t, htokens, hlast⟩
      refine ⟨left.tokens ++ .operator op :: w, t, ?_, hlast⟩
      rw [tokens, htokens, List.append_assoc, List.cons_append]

/-- The last token of an expression ends before anything that is not part of a number. -/
theorem endsBefore_of_mem_getLast? (e : Expr) {rest : List Char} (h : Literal.EndsBefore rest) :
    ∀ t ∈ e.tokens.getLast?, t.EndsBefore rest := by
  rcases e.tokens_end with ⟨w, z, htokens, hlast⟩
  intro t ht
  rw [htokens, List.getLast?_append, List.getLast?_singleton, Option.some_or, Option.mem_def,
    Option.some.injEq] at ht
  subst ht
  rcases hlast with rfl | ⟨literal, rfl⟩
  · trivial
  · exact h

end Expr

/-- The text of an expression does not begin with a star. -/
theorem head_ne_star {e : Expr} (h : e.Writable) {text rest : List Char}
    (htokens : Tokenizes text e.tokens rest) : text.head? ≠ some '*' := by
  rcases Expr.tokens_begin h with ⟨t, w, hbegin, hmultiply, hpower⟩
  rw [hbegin] at htokens
  intro hstar
  cases htokens with
  | blank hc _ =>
      rw [Option.some.inj hstar] at hc
      exact absurd hc (by decide)
  | token ht hscan _ =>
      have hlexeme := isLexeme_of_scan (hscan 0) ht
      cases t with
      | openParen => exact absurd (Option.some.inj hstar) (by decide)
      | closeParen => exact absurd (Option.some.inj hstar) (by decide)
      | operator op =>
          cases op with
          | multiply => exact absurd rfl hmultiply
          | power => exact absurd rfl hpower
          | _ => exact absurd (Option.some.inj hstar) (by decide)
      | number literal =>
          rcases Literal.head_of_isLiteral hlexeme with ⟨c, digits, hspelling, hc⟩
          rw [Token.spelling, hspelling] at hstar
          rw [Option.some.inj hstar] at hc
          exact absurd hc (by decide)
      | blank c => exact hlexeme.elim
      | endOfInput => exact hlexeme.elim

-- No operator goes on with a number.
theorem endsBefore_operator (op : Operator) (rest : List Char) :
    Literal.EndsBefore (op.glyphs ++ rest) := by
  intro c hc
  cases op with
  | _ =>
      rw [← Option.some.inj hc]
      decide

namespace Complete

/-- Two complete texts with an operator between them, if both bind tightly enough. -/
theorem join {a b : String} {A B : Expr} {op : Operator} (ha : Complete a A) (hb : Complete b B)
    (hleft : op.level.rank ≤ A.level.rank) (hright : op.level.rank < B.level.rank) :
    Complete (a ++ op.symbol ++ b) (.binary op A B) := by
  rcases complete_iff.mp ha with ⟨haOrdered, haWritable, haTokens⟩
  rcases complete_iff.mp hb with ⟨hbOrdered, hbWritable, hbTokens⟩
  refine complete_iff.mpr ⟨⟨hleft, hright, haOrdered, hbOrdered⟩, ⟨haWritable, hbWritable⟩, ?_⟩
  have hop := @tokenizes_operator b.toList op fun _ => head_ne_star hbWritable hbTokens
  have hfront := haTokens.extend
    (A.endsBefore_of_mem_getLast? (endsBefore_operator op b.toList))
  rw [Operator.symbol, String.toList_append, String.toList_append, String.toList_ofList,
    List.append_assoc]
  exact hfront.append (hop.append hbTokens)

/-- A complete text with a sign in front of it, if it binds tightly enough. -/
theorem sign {a : String} {A : Expr} {op : Operator} (ha : Complete a A) (hop : op.isSign = true)
    (hoperand : Level.sign.rank ≤ A.level.rank) : Complete (op.symbol ++ a) (.unary op A) := by
  rcases complete_iff.mp ha with ⟨hordered, hwritable, htokens⟩
  refine complete_iff.mpr ⟨⟨hoperand, hordered⟩, ⟨hop, hwritable⟩, ?_⟩
  rw [Operator.symbol, String.toList_append, String.toList_ofList]
  exact (tokenizes_operator fun _ => head_ne_star hwritable htokens).append htokens

/-- A complete text in parentheses. -/
theorem group {a : String} {A : Expr} (ha : Complete a A) :
    Complete ("(" ++ a ++ ")") (.group A) := by
  rcases complete_iff.mp ha with ⟨hordered, hwritable, htokens⟩
  refine complete_iff.mpr ⟨hordered, hwritable, ?_⟩
  have hbody := htokens.extend (A.endsBefore_of_mem_getLast? (Expr.endsBefore_closeParen []))
  rw [String.toList_append, String.toList_append, List.append_assoc]
  exact tokenizes_openParen.append (hbody.append tokenizes_closeParen)

end Complete

end Reckoner
