import Reckoner.Expr.Basic
import Reckoner.Proofs.Lexer.Tokenization

/-!
# Rendered Trees

The text of a tree and the tokens in it.

Rendering knows nothing of tokens. It puts spaces around binary operators and
otherwise writes one thing directly behind the other, and it has to be seen that the
scanner takes the text apart in the same places. `Writable` is what that needs of a
tree: its numbers are literals, and only `+` and `-` stand in front of an operand.
How the tree is nested does not matter, nor does it matter where it has statements.

The only token that could run into what follows is a number. In a rendered tree a
number is followed by a space, by a parenthesis or by nothing, and a star by a
space.

## Main definitions

* `Expr.tokens`: The tokens of a tree, from left to right.
* `Expr.Writable`: The parts of a tree can be written.

## Theorems

* `tokenizes_render`: The text of a tree begins with its tokens.
* `stream_render`: The text of a tree is its tokens and nothing more.
-/

namespace Reckoner

namespace Expr

/-- The tokens of a tree. A statement has none of its own. -/
def tokens : Expr → List Token
  | statement body => body.tokens
  | group body => .openParen :: (body.tokens ++ [.closeParen])
  | number literal => [.number literal]
  | unary op operand => .operator op :: operand.tokens
  | binary op left right => left.tokens ++ .operator op :: right.tokens

/-- The numbers of a tree are literals and its unary operators are signs. -/
def Writable : Expr → Prop
  | statement body => body.Writable
  | group body => body.Writable
  | number literal => Literal.IsLiteral literal.toList
  | unary op operand => op.isSign = true ∧ operand.Writable
  | binary _ left right => left.Writable ∧ right.Writable

instance decidableWritable : DecidablePred Writable
  | statement body => decidableWritable body
  | group body => decidableWritable body
  | number literal => inferInstanceAs (Decidable (Literal.IsLiteral literal.toList))
  | unary _ operand =>
    have := decidableWritable operand
    inferInstanceAs (Decidable (_ ∧ _))
  | binary _ left right =>
    have := decidableWritable left
    have := decidableWritable right
    inferInstanceAs (Decidable (_ ∧ _))

-- What stands behind an operand or a sum in a rendered tree is not part of a number.
theorem endsBefore_space (rest : List Char) : Literal.EndsBefore (' ' :: rest) := by
  intro c hc
  rw [← Option.some.inj hc]
  decide

theorem endsBefore_closeParen (rest : List Char) : Literal.EndsBefore (')' :: rest) := by
  intro c hc
  rw [← Option.some.inj hc]
  decide

/-- The text of a tree begins with the tokens of the tree, unless what stands behind the
    text goes on with its last number. -/
theorem tokenizes_render {e : Expr} (h : e.Writable) {rest : List Char}
    (hrest : Literal.EndsBefore rest) : Tokenizes (e.render.toList ++ rest) e.tokens rest := by
  induction e generalizing rest with
  | statement body ih => exact ih h hrest
  | number literal => exact tokenizes_number h hrest
  | group body ih =>
      have hbody := (ih h (endsBefore_closeParen rest)).append tokenizes_closeParen
      rw [render, String.toList_append, String.toList_append, List.append_assoc,
        List.append_assoc]
      exact tokenizes_openParen.append hbody
  | unary op operand ih =>
      have hop : op = .multiply → (operand.render.toList ++ rest).head? ≠ some '*' := by
        rintro rfl
        exact absurd h.1 Bool.false_ne_true
      rw [render, Operator.symbol, String.toList_append, String.toList_ofList,
        List.append_assoc]
      exact (tokenizes_operator hop).append (ih h.2 hrest)
  | binary op left right ihLeft ihRight =>
      -- Between the spaces the operator is found as it is.
      have hright : Tokenizes (' ' :: (right.render.toList ++ rest)) right.tokens rest :=
        .blank rfl (ihRight h.2 hrest)
      have hspace : op = .multiply → (' ' :: (right.render.toList ++ rest)).head? ≠ some '*' :=
        fun _ hstar => absurd (Option.some.inj hstar) (by decide)
      have hop := (tokenizes_operator hspace).append hright
      have hleft := (ihLeft h.1 (endsBefore_space _)).append (.blank rfl hop)
      simp only [render, Operator.symbol, String.toList_append, String.toList_ofList,
        List.append_assoc]
      exact hleft

/-- The text of a tree is its tokens and nothing more. -/
theorem stream_render {e : Expr} (h : e.Writable) :
    (Lexer.ofText e.render).stream = e.tokens ++ TokenStream.ending := by
  have htext := tokenizes_render h Literal.endsBefore_nil
  rw [List.append_nil] at htext
  exact stream_ofText htext

end Expr

end Reckoner
