import Reckoner.Binary64.Remainder
import Reckoner.Error
import Reckoner.Expr.Basic
import Reckoner.Literal.Value

/-!
# The Value of a Tree

The value of a tree. Operands are evaluated before their operator and the left
one before the right one, and the first error ends the evaluation, so of several
faults in a tree the one that comes first in this order is reported.

All arithmetic is that of double precision numbers and never fails: a division by
zero is infinite or no number. The `b`-th root of `a` is the power of `a` to
`1 / b` and nothing else, so it is no number for a negative `a`, odd roots
included. What can fail is a tree that was built by hand, by a literal that
spells no number or by an operator in front of an operand that is no sign.

Evaluation also tells which nodes it has got a value for, in the order in which it
got them. `Expr.walk` does both at once, since the log and the outcome depend on
each other: a node is logged exactly if it has a value, and nothing behind the
first error is.

## Main definitions

* `Operator.apply`: The value of a binary operator.
* `Operator.applySign`: The value of a sign.
* `Visit`: A node and the value it was found to have.
* `Expr.walk`: The value of a tree and the nodes evaluated on the way.
* `Expr.value`: The value of a tree.
* `Expr.visits`: The nodes evaluated on the way.
-/

namespace Reckoner

namespace Operator

/-- The value of a binary operator. -/
def apply : Operator → Float → Float → Float
  | add, a, b => a + b
  | subtract, a, b => a - b
  | multiply, a, b => a * b
  | divide, a, b => a / b
  | remainder, a, b => Binary64.remainder a b
  | power, a, b => a.pow b
  | root, a, b => a.pow (1 / b)

/-- The value of an operator in front of its only operand. Only the signs have one. -/
def applySign : Operator → Float → Except EvalError Float
  | add, a => .ok a
  | subtract, a => .ok (-a)
  | op, _ => .error (.unrecognizedUnaryOperator op)

end Operator

/-- The value of a literal, or the complaint that it spells no number. -/
def Literal.value (text : String) : Except EvalError Float :=
  match value? text with
  | some x => .ok x
  | none => .error (.invalidNumber text)

/-- A node and the value it was found to have. -/
structure Visit where
  node : Expr
  value : Float

namespace Expr

/-- What a node adds to the walk over its operands: itself, if it has a value. -/
def visit (node : Expr) (outcome : Except EvalError Float) (before : List Visit) :
    Except EvalError Float × List Visit :=
  match outcome with
  | .ok x => (.ok x, before ++ [⟨node, x⟩])
  | .error cause => (.error cause, before)

/-- The value of a tree and the nodes that were evaluated, in that order. -/
def walk : Expr → Except EvalError Float × List Visit
  | statement body =>
    let (x, visits) := body.walk
    (statement body).visit x visits
  | group body =>
    let (x, visits) := body.walk
    (group body).visit x visits
  | number literal => (number literal).visit (Literal.value literal) []
  | unary op operand =>
    let (x, visits) := operand.walk
    (unary op operand).visit (x.bind op.applySign) visits
  | binary op left right =>
    match left.walk with
    | (.error cause, visits) => (.error cause, visits)
    | (.ok a, leftVisits) =>
      let (b, rightVisits) := right.walk
      (binary op left right).visit (b.map (op.apply a)) (leftVisits ++ rightVisits)

/-- The value of a tree. -/
def value (e : Expr) : Except EvalError Float :=
  e.walk.1

/-- The nodes that get a value before the tree has its own or fails. -/
def visits (e : Expr) : List Visit :=
  e.walk.2

end Expr

end Reckoner
