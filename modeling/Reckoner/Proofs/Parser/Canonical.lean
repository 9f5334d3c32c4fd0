import Reckoner.Proofs.Expr.Rendering
import Reckoner.Proofs.Parser.Grammar

/-!
# Canonical Trees

The trees that parsing gives, and that rendering gives back.

Parentheses are nodes, so a tree says itself where they are, and rendering adds none. A
tree that was built by hand may have a sum as the operand of a product. Its text is
fine, but it is the text of another tree, in which the product is the operand of the
sum. `Expr.Ordered` excludes these: operands bind tightly enough to stand where they
stand. The right operand of a binary operator has to bind more tightly than the
operator, the left one only as tightly, since chains hang to the left.

`Canonical` adds what can be written at all and that a statement is the root and
nothing else. This is exactly what parsing gives, and rendering and parsing come
back to the tree they started from for these trees and for no others.

## Main definitions

* `Expr.Ordered`: Operands bind tightly enough.
* `Expr.Canonical`: A statement about an ordered tree that can be written.

## Theorems

* `Derives.loosenTo`: An expression of a level is one of every looser level.
* `derives_of_ordered`: An ordered tree is derived from its tokens.
* `Derives.ordered`, `Derives.writable`: A derived tree is ordered, and can be written
  if its tokens can.
* `canonical_of_parse`: What parsing gives is canonical.
* `parse_render_of_canonical`: A canonical tree is given back.
* `parse_render_iff_canonical`: Only canonical trees are given back.
-/

namespace Reckoner

namespace Expr

/-- Every operand binds as tightly as its place asks for, and there are no
    statements. -/
def Ordered : Expr → Prop
  | statement _ => False
  | group body => body.Ordered
  | number _ => True
  | unary _ operand => Level.sign.rank ≤ operand.level.rank ∧ operand.Ordered
  | binary op left right =>
    op.level.rank ≤ left.level.rank ∧ op.level.rank < right.level.rank ∧
      left.Ordered ∧ right.Ordered

/-- A statement about an ordered tree that can be written. -/
def Canonical : Expr → Prop
  | statement body => body.Ordered ∧ body.Writable
  | _ => False

instance decidableOrdered : DecidablePred Ordered
  | statement _ => inferInstanceAs (Decidable False)
  | group body => decidableOrdered body
  | number _ => inferInstanceAs (Decidable True)
  | unary _ operand =>
    have := decidableOrdered operand
    inferInstanceAs (Decidable (_ ∧ _))
  | binary _ left right =>
    have := decidableOrdered left
    have := decidableOrdered right
    inferInstanceAs (Decidable (_ ∧ _ ∧ _ ∧ _))

instance : DecidablePred Canonical
  | statement _ => inferInstanceAs (Decidable (_ ∧ _))
  | group _ | number _ | unary _ _ | binary _ _ _ => inferInstanceAs (Decidable False)

end Expr

theorem rank_injective {level level' : Level} (h : level.rank = level'.rank) : level = level' := by
  cases level with
  | _ => cases level' with
    | _ => first | rfl | exact absurd h (by decide)

theorem sum_rank_le (level : Level) : Level.sum.rank ≤ level.rank := by
  cases level with
  | _ => decide

/-- An expression of a level is one of every looser level. -/
theorem Derives.loosenTo {level level' : Level} {w : List Token} {e : Expr}
    (h : Derives level' w e) (hle : level.rank ≤ level'.rank) : Derives level w e := by
  -- The induction is on how far apart the levels are.
  induction hn : level'.rank - level.rank generalizing level with
  | zero =>
      have hsame : level = level' := rank_injective (by omega)
      rw [hsame]
      exact h
  | succ n ih =>
      have htighter : level ≠ .atom → Derives level.tighter w e := by
        intro hatom
        have hrank : level.tighter.rank = level.rank + 1 := by
          cases level with
          | atom => exact absurd rfl hatom
          | _ => rfl
        exact ih (by omega) (by omega)
      cases level with
      | sign => exact Derives.unsigned (htighter nofun)
      | atom =>
          have hmax : level'.rank ≤ Level.atom.rank := by
            cases level' with
            | _ => decide
          omega
      | _ => exact Derives.loosen rfl (htighter nofun)

/-- An ordered tree is derived from its tokens at its own level, and so at every looser
    one. -/
theorem derives_of_ordered {e : Expr} (h : e.Ordered) (hwritable : e.Writable) {level : Level}
    (hle : level.rank ≤ e.level.rank) : Derives level e.tokens e := by
  induction e generalizing level with
  | statement body => exact h.elim
  | number literal => exact (Derives.number literal).loosenTo hle
  | group body ih =>
      exact (Derives.group (ih h hwritable (sum_rank_le _))).loosenTo hle
  | unary op operand ih =>
      exact (Derives.sign hwritable.1 (ih h.2 hwritable.2 h.1)).loosenTo hle
  | binary op left right ihLeft ihRight =>
      rcases h with ⟨hleft, hright, hleft', hright'⟩
      have hop : op.level.joins op = true := beq_self_eq_true _
      have htighter : op.level.tighter.rank ≤ right.level.rank := by
        rw [rank_tighter (isBinary_of_joins hop)]
        exact hright
      exact (Derives.join hop (ihLeft hleft' hwritable.1 hleft)
        (ihRight hright' hwritable.2 htighter)).loosenTo hle

namespace Derives

/-- A derived tree is ordered, and binds at least as tightly as its level. -/
theorem ordered {level : Level} {w : List Token} {e : Expr} (h : Derives level w e) :
    e.Ordered ∧ level.rank ≤ e.level.rank := by
  induction h with
  | number literal => exact ⟨trivial, Nat.le_refl _⟩
  | group _ ih => exact ⟨ih.1, Nat.le_refl _⟩
  | sign _ _ ih => exact ⟨⟨ih.2, ih.1⟩, Nat.le_refl _⟩
  | unsigned _ ih => exact ⟨ih.1, Nat.le_of_succ_le ih.2⟩
  | @chain level w first links hlevel _ hops _ ihFirst ihLinks =>
      have hrank := rank_tighter hlevel
      refine List.foldlRecOn (motive := fun e => e.Ordered ∧ level.rank ≤ e.level.rank)
        links Link.joinTo ⟨ihFirst.1, by omega⟩ fun left hleft link hlink => ?_
      have hop := (joins_iff_rank level link.op).mp (hops link hlink)
      have hoperand := ihLinks link hlink
      refine ⟨⟨?_, ?_, hleft.1, hoperand.1⟩, ?_⟩
      · rw [hop]
        exact hleft.2
      · omega
      · exact Nat.le_of_eq hop.symm

/-- A derived tree can be written if the numbers among its tokens can. -/
theorem writable {level : Level} {w : List Token} {e : Expr} (h : Derives level w e)
    (hliterals : ∀ literal, .number literal ∈ w → Literal.IsLiteral literal.toList) :
    e.Writable := by
  induction h with
  | number literal => exact hliterals literal List.mem_cons_self
  | group _ ih =>
      exact ih fun literal hmem =>
        hliterals literal (List.mem_cons_of_mem _ (List.mem_append_left _ hmem))
  | sign hop _ ih =>
      exact ⟨hop, ih fun literal hmem => hliterals literal (List.mem_cons_of_mem _ hmem)⟩
  | unsigned _ ih => exact ih hliterals
  | @chain level w first links _ _ _ _ ihFirst ihLinks =>
      have hfirst := ihFirst fun literal hmem => hliterals literal (List.mem_append_left _ hmem)
      refine List.foldlRecOn links Link.joinTo hfirst fun left hleft link hlink => ⟨hleft, ?_⟩
      refine ihLinks link hlink fun literal hmem => ?_
      have hlinks : .number literal ∈ links.flatMap Link.tokens :=
        List.mem_flatMap.mpr ⟨link, hlink, List.mem_cons_of_mem _ hmem⟩
      exact hliterals literal (List.mem_append_right w hlinks)

end Derives

theorem readStatement_eq_ok {l : Lexer} {e : Expr} :
    l.readStatement.1 = .ok e ↔ ∃ body, e = .statement body ∧ (Level.sum.read l).1 = .ok body := by
  rw [readStatement_eq]
  rcases Level.sum.read l with ⟨cause | body, rest⟩
  · exact ⟨nofun, nofun⟩
  · rw [continueWith_ok]
    constructor
    · intro h
      exact ⟨body, (Except.ok.inj h).symm, rfl⟩
    · rintro ⟨body', rfl, hbody⟩
      rw [Except.ok.inj hbody]

/-- What parsing gives is canonical. -/
theorem canonical_of_parse {source : String} {e : Expr} (h : parse source = .ok e) :
    e.Canonical := by
  rcases readStatement_eq_ok.mp h with ⟨body, rfl, hread⟩
  rcases read_sound .sum (Lexer.ofText source) body _ (Prod.ext hread rfl) with
    ⟨w, hwhole, hderives, -⟩
  have hqueue : ∀ literal, .number literal ∈ (Lexer.ofText source).queue →
      Literal.IsLiteral literal.toList := nofun
  refine ⟨hderives.ordered.1, hderives.writable fun literal hmem => ?_⟩
  refine isLiteral_of_mem_stream hqueue literal ?_
  rw [hwhole, TokenStream.tokens_append]
  exact List.mem_append_left _ hmem

/-- A canonical tree is given back by parsing its text. -/
theorem parse_render_of_canonical {e : Expr} (h : e.Canonical) : parse e.render = .ok e := by
  cases e with
  | statement body =>
      rcases h with ⟨hordered, hwritable⟩
      have hderives := derives_of_ordered hordered hwritable (sum_rank_le body.level)
      have hstops : Level.sum.StopsBefore .ending := fun _ => ⟨.endOfInput, rfl, nofun⟩
      rcases accepts_of_derives hderives _ _ (Expr.stream_render hwritable) hstops with
        ⟨l', hread, -⟩
      exact readStatement_eq_ok.mpr ⟨body, rfl, congrArg Prod.fst hread⟩
  | _ => exact h.elim

/-- What parsing gives is canonical, whatever the text, and of all trees, however they
    were built, exactly the canonical ones are given back by parsing their text. -/
theorem parse_render_iff_canonical :
    (∀ (source : String) (e : Expr), parse source = .ok e → e.Canonical) ∧
      ∀ e : Expr, parse e.render = .ok e ↔ e.Canonical :=
  ⟨fun _ _ => canonical_of_parse, fun _ => ⟨canonical_of_parse, parse_render_of_canonical⟩⟩

/-- A sum in parentheses as the operand of a product is given back. -/
theorem product_of_group_given_back :
    (Expr.statement (.binary .multiply (.group (.binary .add (.number "1") (.number ".5")))
      (.number "2."))).Canonical ∧
      parse "(1 + .5) * 2." = .ok (.statement (.binary .multiply
        (.group (.binary .add (.number "1") (.number ".5"))) (.number "2."))) := by
  have hcanonical : (Expr.statement (.binary .multiply
      (.group (.binary .add (.number "1") (.number ".5"))) (.number "2."))).Canonical := by
    decide +kernel
  have hrender : (Expr.statement (.binary .multiply
      (.group (.binary .add (.number "1") (.number ".5"))) (.number "2."))).render
        = "(1 + .5) * 2." := by
    decide +kernel
  have hparse := (parse_render_iff_canonical.2 _).mpr hcanonical
  rw [hrender] at hparse
  exact ⟨hcanonical, hparse⟩

-- Without the parentheses it would be another tree.
example : ¬(Expr.statement (.binary .multiply (.binary .add (.number "1") (.number ".5"))
    (.number "2."))).Canonical := by
  decide

end Reckoner
