import Reckoner.Expr.Value
import Reckoner.Proofs.Expr.Rendering
import Reckoner.Proofs.Literal.Reading

/-!
# Values of Trees

What the value of a tree is by the values of its operands, with the walk over the nodes
left out.

A tree is evaluated together with the list of the nodes that were visited. The value
alone obeys plain equations, one for each kind of node, in which errors pass through
`Except.bind` from left to right.

A tree that can be written has a value. What can go wrong in a tree is a text that spells
no number and an operator that is no sign before its operand, and being `Writable`
excludes both. Trees that come from a text are writable, which is why evaluating a text
cannot fail once it has been read.

## Theorems

* `value_statement`, `value_group`, `value_number`, `value_unary`, `value_binary`: The
  value of a tree by its operands.
* `Literal.value_of_isLiteral`: Every literal has a value.
* `applySign_of_isSign`: Every sign has a value.
* `value_of_writable`: Every tree that can be written has a value.
-/

namespace Reckoner

namespace Expr

-- What a visit adds to a walk is no part of the value.
theorem visit_fst (node : Expr) (outcome : Except EvalError Float) (before : List Visit) :
    (node.visit outcome before).1 = outcome := by
  cases outcome with
  | ok x => rfl
  | error cause => rfl

theorem value_statement (body : Expr) : (statement body).value = body.value :=
  visit_fst _ _ _

theorem value_group (body : Expr) : (group body).value = body.value :=
  visit_fst _ _ _

theorem value_number (literal : String) : (number literal).value = Literal.value literal :=
  visit_fst _ _ _

theorem value_unary (op : Operator) (operand : Expr) :
    (unary op operand).value = operand.value.bind op.applySign :=
  visit_fst _ _ _

theorem value_binary (op : Operator) (left right : Expr) :
    (binary op left right).value = left.value.bind fun a => right.value.map (op.apply a) := by
  rw [value, walk, value]
  rcases left.walk with ⟨cause | a, visits⟩
  · rfl
  · exact visit_fst _ _ _

end Expr

/-- Every literal has a value. -/
theorem Literal.value_of_isLiteral {literal : String} (h : IsLiteral literal.toList) :
    ∃ x, Literal.value literal = .ok x := by
  have hsome := (value?_isSome_iff literal).mpr (isValid_of_isLiteral h)
  rcases Option.isSome_iff_exists.mp hsome with ⟨x, hx⟩
  exact ⟨x, by rw [Literal.value, hx]⟩

theorem Operator.applySign_of_isSign {op : Operator} (h : op.isSign = true) (a : Float) :
    ∃ x, op.applySign a = .ok x := by
  cases op with
  | add => exact ⟨a, rfl⟩
  | subtract => exact ⟨-a, rfl⟩
  | _ => exact absurd h Bool.false_ne_true

/-- Every tree that can be written has a value. -/
theorem Expr.value_of_writable {e : Expr} (h : e.Writable) : ∃ x, e.value = .ok x := by
  induction e with
  | statement body ih =>
      rw [value_statement]
      exact ih h
  | group body ih =>
      rw [value_group]
      exact ih h
  | number literal =>
      rw [value_number]
      exact Literal.value_of_isLiteral h
  | unary op operand ih =>
      rcases ih h.2 with ⟨a, ha⟩
      rw [value_unary, ha]
      exact Operator.applySign_of_isSign h.1 a
  | binary op left right ihLeft ihRight =>
      rcases ihLeft h.1 with ⟨a, ha⟩
      rcases ihRight h.2 with ⟨b, hb⟩
      rw [value_binary, ha, hb]
      exact ⟨op.apply a b, rfl⟩

end Reckoner
