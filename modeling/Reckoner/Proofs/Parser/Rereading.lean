import Reckoner.Proofs.Parser.Complete
import Reckoner.Proofs.Parser.Verdict

/-!
# Rendered Trees Read Again

What becomes of the text of a tree that was built without regard to precedence.

Such a text is read as another tree. A sum under a product comes back as a product
under a sum, since no parentheses were written around it. What does not change is the
text: rendering the other tree gives the same one. This cannot be seen from the trees,
which have little in common, but it can be seen from their tokens, which are the same.

For the tokens of a tree say how the tree is written. Whether an operator is written by
itself, as a sign, or between spaces is no matter of the tree it belongs to but of the
token in front of it. `layout` writes tokens by that rule and nothing else, and rendering
a tree is laying out its tokens (`render_append_layout`).

That the text can be read at all is seen from the scan, which does not know of trees
either. Where an operand is due the tokens of any tree can stand, and behind them
an operator is due, at the depth where they began (`run_tokens`).

## Main definitions

* `layout`: The text of some tokens.

## Theorems

* `render_append_layout`: The text of a tree is that of its tokens.
* `render_eq_of_tokens_eq`: Trees with the same tokens have the same text.
* `run_tokens`: The scan goes over the tokens of any tree.
* `parse_of_stream_tokens`: The tokens of a tree are read as a tree with these tokens.
* `render_read_again`: The text of a tree is the text of what is read from it.
-/

namespace Reckoner

/-- The text of some tokens, of which the first stands where an operand or an operator is
    due. -/
def layout : Mode → List Token → List Char
  | _, [] => []
  | .operand, .operator op :: w => op.glyphs ++ layout .operand w
  | .after, .operator op :: w => ' ' :: (op.glyphs ++ ' ' :: layout .operand w)
  | _, .openParen :: w => '(' :: layout .operand w
  | _, t :: w => t.spelling ++ layout .after w

/-- The text of a tree, and behind it that of further tokens, is the text of the tokens of the
    tree and the further ones. -/
theorem render_append_layout (e : Expr) (w : List Token) :
    e.render.toList ++ layout .after w = layout .operand (e.tokens ++ w) := by
  induction e generalizing w with
  | statement body ih => exact ih w
  | number literal => rfl
  | group body ih =>
      have hbody := ih (.closeParen :: w)
      rw [Expr.render, Expr.tokens, String.toList_append, String.toList_append, List.cons_append,
        List.append_assoc, List.append_assoc, List.append_assoc, layout]
      exact congrArg ('(' :: ·) hbody
  | unary op operand ih =>
      rw [Expr.render, Expr.tokens, Operator.symbol, String.toList_append, String.toList_ofList,
        List.append_assoc, ih, List.cons_append, layout]
  | binary op left right ihLeft ihRight =>
      have hop : ' ' :: (op.glyphs ++ ' ' :: (right.render.toList ++ layout .after w))
          = layout .after (.operator op :: (right.tokens ++ w)) := by
        rw [ihRight, layout]
      simp only [Expr.render, Expr.tokens, Operator.symbol, String.toList_append,
        String.toList_ofList, List.append_assoc, List.cons_append]
      rw [← ihLeft, ← hop]
      rfl

/-- Trees with the same tokens have the same text. -/
theorem render_eq_of_tokens_eq {e e' : Expr} (h : e.tokens = e'.tokens) : e.render = e'.render := by
  have hlayout : ∀ e : Expr, e.render.toList = layout .operand e.tokens := fun e => by
    have htext := render_append_layout e []
    rwa [layout, List.append_nil, List.append_nil] at htext
  refine String.toList_injective ?_
  rw [hlayout e, hlayout e', h]

/-- Where an operand is due the scan goes over the tokens of any tree that can be written. -/
theorem run_tokens {e : Expr} (h : e.Writable) (depth : Nat) :
    e.tokens.foldlM Mode.step (.operand, depth) = some (.after, depth) := by
  induction e generalizing depth with
  | statement body ih => exact ih h depth
  | number literal => rfl
  | group body ih =>
      rw [Expr.tokens, List.foldlM_cons, Mode.step, Option.bind_eq_bind, Option.bind_some,
        List.foldlM_append, ih h]
      rfl
  | unary op operand ih =>
      rw [Expr.tokens, List.foldlM_cons, Mode.step, if_pos h.1]
      exact ih h.2 depth
  | binary op left right ihLeft ihRight =>
      rw [Expr.tokens, List.foldlM_append, ihLeft h.1, Option.bind_eq_bind, Option.bind_some,
        List.foldlM_cons, Mode.step]
      exact ihRight h.2 depth

/-- A text that is nothing but the tokens of a tree that can be written is read as a tree with the
    same tokens, and as a whole. -/
theorem parse_of_stream_tokens {source : String} {e : Expr} (h : e.Writable)
    (hstream : (Lexer.ofText source).stream = e.tokens ++ TokenStream.ending) :
    (Lexer.ofText source).readStatement.2.stream = .ending ∧
      ∃ tree, parse source = .ok tree ∧ tree.tokens = e.tokens := by
  have hscan : (Lexer.ofText source).stream.scan .operand 0 = (.ok (), .ending) := by
    rw [hstream, TokenStream.scan_of_run (run_tokens h 0)]
    rfl
  have hdescent := (statement_scans (.start source)).symm
  rw [hscan, Prod.mk.injEq] at hdescent
  rcases hdescent with ⟨hread, hend⟩
  refine ⟨hend, ?_⟩
  rcases hparse : parse source with cause | tree
  · rw [parse] at hparse
    rw [hparse] at hread
    cases hread
  · have hcanonical := canonical_of_parse hparse
    cases tree with
    | statement body =>
        -- The whole text has been read, so its tokens are those of the tree.
        have hnext : (Lexer.ofText source).readStatement.2.next.1 = .ok .endOfInput := by
          rw [← Lexer.head_stream, hend]
          rfl
        have htokens := stream_ofText (complete_iff.mp ⟨hparse, hnext⟩).2.2
        exact ⟨_, rfl, TokenStream.append_left_injective (htokens.symm.trans hstream)⟩
    | _ => exact hcanonical.elim

/-- Rendering reaches a fixed point at once. The text of any tree that can be written, however its
    operators are nested and wherever it has statements,

    * is cut into the tokens of the tree, with the texts of its numbers, and nothing more,
    * is read as a whole, as a tree with the same tokens,
    * and is the text of that tree too, although it may be another one. -/
theorem render_read_again {e : Expr} (h : e.Writable) :
    (Lexer.ofText e.render).stream = e.tokens ++ TokenStream.ending ∧
      (Lexer.ofText e.render).readStatement.2.stream = .ending ∧
      ∃ tree, parse e.render = .ok tree ∧ tree.tokens = e.tokens ∧ tree.render = e.render := by
  have hstream := Expr.stream_render h
  rcases parse_of_stream_tokens h hstream with ⟨hend, tree, hparse, htokens⟩
  exact ⟨hstream, hend, tree, hparse, htokens, render_eq_of_tokens_eq htokens⟩

/-- A minus sign before a product of a sum, with a statement inside: it is read as a sum, but the
    text stays. -/
theorem negated_product_of_sum_read_again :
    (Expr.unary .subtract (.binary .multiply (.binary .add (.number "1") (.number ".5"))
        (.statement (.number "2.")))).Writable ∧
      ∃ tree, parse "-1 + .5 * 2." = .ok tree ∧ tree.render = "-1 + .5 * 2." ∧
        tree ≠ .unary .subtract (.binary .multiply (.binary .add (.number "1") (.number ".5"))
          (.statement (.number "2."))) := by
  have hwritable : (Expr.unary .subtract (.binary .multiply
      (.binary .add (.number "1") (.number ".5")) (.statement (.number "2.")))).Writable := by
    decide +kernel
  have hrender : (Expr.unary .subtract (.binary .multiply
      (.binary .add (.number "1") (.number ".5")) (.statement (.number "2.")))).render
        = "-1 + .5 * 2." := by
    decide +kernel
  rcases render_read_again hwritable with ⟨-, -, tree, hparse, -, htext⟩
  rw [hrender] at hparse htext
  refine ⟨hwritable, tree, hparse, htext, ?_⟩
  rintro rfl
  exact canonical_of_parse hparse

end Reckoner
