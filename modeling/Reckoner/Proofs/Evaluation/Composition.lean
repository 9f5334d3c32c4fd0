import Reckoner.Proofs.Evaluation.Failures
import Reckoner.Proofs.Parser.Complete

/-!
# Composed Texts

What the levels of the operators mean for texts.

Complete texts can be joined by an operator, given a sign, or put in parentheses. If the
parts bind tightly enough for the place where they are put, the whole is complete too, its
tree is made of the trees of the parts, and hence its value is made of their values. This
is all that precedence and associativity are about: a sum is no operand of a product
unless it stands in parentheses, and the left operand may be of the same level as the
operator while the right one may not.

A `Composition` is a plan by which a text is put together from complete pieces in this
way, with any nesting. It has a text, a tree and a value, each computed from those of its
parts, and if its parts fit everywhere, the text is complete with the tree and has the
value (`Composition.complete`, `Composition.evaluate_text`). A chain of operators of one
level is the composition that joins its operands from left to right.

## Main definitions

* `Composition`: A plan to put a text together.
* `Composition.text`, `Composition.tree`, `Composition.value`: What comes out of it.
* `Composition.Fits`: The parts bind tightly enough for their places.
* `Composition.chain`: Operands joined from left to right.

## Theorems

* `Complete.value`: A complete text has the value of its tree.
* `Composition.complete`, `Composition.evaluate_text`: What a fitting plan gives.
* `Composition.chain_fits`: Chains of one level fit.
* `composed_texts`: Texts put together have the trees and the values put together.
-/

namespace Reckoner

/-- A complete text has a value, which is that of its tree. -/
theorem Complete.value {source : String} {e : Expr} (h : Complete source e) :
    ∃ x, e.value = .ok x ∧ evaluate source = .ok x := by
  rcases value_of_parse h.parse_eq with ⟨x, hx⟩
  refine ⟨x, ?_, evaluate_of_parse h.parse_eq hx⟩
  rw [← Expr.value_statement]
  exact hx

-- The value of a complete text, if the value of the tree is known.
theorem Complete.evaluate_eq {source : String} {e : Expr} {x : Float} (h : Complete source e)
    (hx : e.value = .ok x) : evaluate source = .ok x :=
  evaluate_of_parse h.parse_eq ((Expr.value_statement e).trans hx)

/-- A plan to put a text together from complete pieces. -/
inductive Composition where
  | piece (source : String) (e : Expr)
  | join (op : Operator) (left right : Composition)
  | sign (op : Operator) (operand : Composition)
  | group (body : Composition)

namespace Composition

/-- The text that comes out. No blanks are added. -/
def text : Composition → String
  | piece source _ => source
  | join op left right => left.text ++ op.symbol ++ right.text
  | sign op operand => op.symbol ++ operand.text
  | group body => "(" ++ body.text ++ ")"

/-- The tree that comes out. -/
def tree : Composition → Expr
  | piece _ e => e
  | join op left right => .binary op left.tree right.tree
  | sign op operand => .unary op operand.tree
  | group body => .group body.tree

/-- The value that comes out, by the values of the pieces. -/
def value : Composition → Except Error Float
  | piece source _ => evaluate source
  | join op left right => left.value.bind fun a => right.value.map (op.apply a)
  | sign op operand => operand.value.bind fun a => (op.applySign a).mapError .eval
  | group body => body.value

/-- The pieces are complete, and all parts bind tightly enough for their places. -/
def Fits : Composition → Prop
  | piece source e => Complete source e
  | join op left right =>
    op.level.rank ≤ left.tree.level.rank ∧ op.level.rank < right.tree.level.rank ∧
      left.Fits ∧ right.Fits
  | sign op operand =>
    op.isSign = true ∧ Level.sign.rank ≤ operand.tree.level.rank ∧ operand.Fits
  | group body => body.Fits

/-- Operands joined from left to right. -/
def chain (first : Composition) (links : List (Operator × Composition)) : Composition :=
  links.foldl (fun left link => join link.1 left link.2) first

/-- A plan that fits gives a complete text. -/
theorem complete {c : Composition} (h : c.Fits) : Complete c.text c.tree := by
  induction c with
  | piece source e => exact h
  | join op left right ihLeft ihRight =>
      exact (ihLeft h.2.2.1).join (ihRight h.2.2.2) h.1 h.2.1
  | sign op operand ih => exact (ih h.2.2).sign h.1 h.2.1
  | group body ih => exact (ih h).group

-- The value that is planned is that of the tree.
theorem value_tree {c : Composition} (h : c.Fits) :
    ∃ x, c.value = .ok x ∧ c.tree.value = .ok x := by
  induction c with
  | piece source e =>
      rcases Complete.value h with ⟨x, htree, hsource⟩
      exact ⟨x, hsource, htree⟩
  | join op left right ihLeft ihRight =>
      rcases ihLeft h.2.2.1 with ⟨a, ha, haTree⟩
      rcases ihRight h.2.2.2 with ⟨b, hb, hbTree⟩
      refine ⟨op.apply a b, ?_, ?_⟩
      · rw [value, ha, hb]
        rfl
      · rw [tree, Expr.value_binary, haTree, hbTree]
        rfl
  | sign op operand ih =>
      rcases ih h.2.2 with ⟨a, ha, haTree⟩
      rcases Operator.applySign_of_isSign h.1 a with ⟨x, hx⟩
      refine ⟨x, ?_, ?_⟩
      · rw [value, ha]
        exact congrArg (Except.mapError Error.eval) hx
      · rw [tree, Expr.value_unary, haTree]
        exact hx
  | group body ih =>
      rcases ih h with ⟨x, hx, hxTree⟩
      exact ⟨x, hx, (Expr.value_group body.tree).trans hxTree⟩

/-- A plan that fits gives a text with the planned value. -/
theorem evaluate_text {c : Composition} (h : c.Fits) :
    ∃ x, c.value = .ok x ∧ evaluate c.text = .ok x := by
  rcases value_tree h with ⟨x, hx, htree⟩
  exact ⟨x, hx, (complete h).evaluate_eq htree⟩

/-- A chain of operators of one level fits if its operands bind more tightly; the first of
    them needs to bind as tightly only. -/
theorem chain_fits {level : Level} {first : Composition} (hfirst : first.Fits)
    (hrank : level.rank ≤ first.tree.level.rank) (links : List (Operator × Composition))
    (hlinks : ∀ link ∈ links, level.joins link.1 = true ∧
      level.rank < link.2.tree.level.rank ∧ link.2.Fits) :
    (chain first links).Fits := by
  -- What is joined so far is of the level itself from the first link on.
  have hjoined : (chain first links).Fits ∧ level.rank ≤ (chain first links).tree.level.rank := by
    induction links generalizing first with
    | nil => exact ⟨hfirst, hrank⟩
    | cons link links ih =>
        rcases List.forall_mem_cons.mp hlinks with ⟨⟨hjoins, hright, hfits⟩, hlinks'⟩
        have hop := (joins_iff_rank level link.1).mp hjoins
        refine @ih (join link.1 first link.2) ⟨?_, ?_, hfirst, hfits⟩ (Nat.le_of_eq hop.symm)
          hlinks'
        · rw [hop]
          exact hrank
        · rw [hop]
          exact hright
  exact hjoined.1

end Composition

/-- Texts that are put together have the trees and the values put together.

    * Two complete texts with an operator between them, if the left one binds at least as
      tightly as the operator and the right one more tightly.
    * A complete text with a sign in front of it, if it binds as tightly as a sign.
    * A complete text in parentheses.
    * Any composition of these, and chains of operators of one level in particular. -/
theorem composed_texts :
    (∀ (a b : String) (A B : Expr) (op : Operator), Complete a A → Complete b B →
        op.level.rank ≤ A.level.rank → op.level.rank < B.level.rank →
        Complete (a ++ op.symbol ++ b) (.binary op A B) ∧
          ∃ x y, evaluate a = .ok x ∧ evaluate b = .ok y ∧
            evaluate (a ++ op.symbol ++ b) = .ok (op.apply x y)) ∧
      (∀ (a : String) (A : Expr) (op : Operator), Complete a A → op.isSign = true →
        Level.sign.rank ≤ A.level.rank →
        Complete (op.symbol ++ a) (.unary op A) ∧
          ∃ x y, evaluate a = .ok x ∧ op.applySign x = .ok y ∧
            evaluate (op.symbol ++ a) = .ok y) ∧
      (∀ (a : String) (A : Expr), Complete a A →
        Complete ("(" ++ a ++ ")") (.group A) ∧
          ∃ x, evaluate a = .ok x ∧ evaluate ("(" ++ a ++ ")") = .ok x) ∧
      (∀ c : Composition, c.Fits →
        Complete c.text c.tree ∧ ∃ x, c.value = .ok x ∧ evaluate c.text = .ok x) ∧
      ∀ (level : Level) (first : Composition) (links : List (Operator × Composition)),
        first.Fits → level.rank ≤ first.tree.level.rank →
        (∀ link ∈ links, level.joins link.1 = true ∧
          level.rank < link.2.tree.level.rank ∧ link.2.Fits) →
        (Composition.chain first links).Fits := by
  refine ⟨fun a b A B op ha hb hleft hright => ?_, fun a A op ha hop hoperand => ?_,
    fun a A ha => ?_, fun c h => ⟨Composition.complete h, Composition.evaluate_text h⟩,
    fun level first links hfirst hrank => Composition.chain_fits hfirst hrank links⟩
  · have hwhole := ha.join hb hleft hright
    rcases ha.value with ⟨x, hx, hxText⟩
    rcases hb.value with ⟨y, hy, hyText⟩
    refine ⟨hwhole, x, y, hxText, hyText, hwhole.evaluate_eq ?_⟩
    rw [Expr.value_binary, hx, hy]
    rfl
  · have hwhole := ha.sign hop hoperand
    rcases ha.value with ⟨x, hx, hxText⟩
    rcases Operator.applySign_of_isSign hop x with ⟨y, hy⟩
    refine ⟨hwhole, x, y, hxText, hy, hwhole.evaluate_eq ?_⟩
    rw [Expr.value_unary, hx]
    exact hy
  · rcases ha.value with ⟨x, hx, hxText⟩
    exact ⟨ha.group, x, hxText, ha.group.evaluate_eq ((Expr.value_group A).trans hx)⟩

/-- A difference that ends with a dot, less a negated product in parentheses. -/
theorem difference_less_negated_product :
    Complete "8 - 3." (.binary .subtract (.number "8") (.number "3.")) ∧
      Complete "2*.5" (.binary .multiply (.number "2") (.number ".5")) ∧
      Complete "8 - 3.--(2*.5)"
        (.binary .subtract (.binary .subtract (.number "8") (.number "3."))
          (.unary .subtract (.group (.binary .multiply (.number "2") (.number ".5"))))) := by
  have hleft : Complete "8 - 3." (.binary .subtract (.number "8") (.number "3.")) :=
    complete_iff.mpr ⟨by decide, by decide,
      @Lexer.tokenizes_of_stream (Lexer.ofText "8 - 3.") _ rfl (by decide +kernel)⟩
  have hproduct : Complete "2*.5" (.binary .multiply (.number "2") (.number ".5")) :=
    complete_iff.mpr ⟨by decide, by decide,
      @Lexer.tokenizes_of_stream (Lexer.ofText "2*.5") _ rfl (by decide +kernel)⟩
  rcases composed_texts with ⟨hjoin, hsign, hgroup, -, -⟩
  have hgrouped := (hgroup _ _ hproduct).1
  have hsigned := (hsign _ _ .subtract hgrouped rfl (by decide)).1
  exact ⟨hleft, hproduct, (hjoin _ _ _ _ .subtract hleft hsigned (by decide) (by decide)).1⟩

end Reckoner
