import Reckoner.Proofs.Expr.Value

/-!
# Visited Nodes

The nodes that are evaluated to get the value of a tree.

They come in the order of their evaluation, operands before their operator and the left
one before the right one, which is the order of `postorder`. Each is visited once, with
its own value. How far the evaluation gets is another matter; here are only the order and what it
means that some nodes have been visited in it.

## Main definitions

* `Expr.postorder`: The nodes of a tree, operands first.
* `Visits`: A list of visits is one of these nodes, with their values.

## Theorems

* `Visits.concat`: One more node behind its operands.
* `Visits.append`: Nodes visited after others.
-/

namespace Reckoner

namespace Expr

/-- The nodes of a tree, each behind its operands and the left operand before the right one. -/
def postorder : Expr → List Expr
  | statement body => body.postorder ++ [statement body]
  | group body => body.postorder ++ [group body]
  | number literal => [number literal]
  | unary op operand => operand.postorder ++ [unary op operand]
  | binary op left right => left.postorder ++ right.postorder ++ [binary op left right]

end Expr

/-- The visits are visits of these nodes in this order, and each found the value of its node. -/
structure Visits (visits : List Visit) (nodes : List Expr) : Prop where
  nodes_eq : visits.map Visit.node = nodes
  value_eq : ∀ visit ∈ visits, visit.node.value = .ok visit.value

namespace Visits

variable {visits visits' : List Visit} {nodes nodes' : List Expr}

theorem nil : Visits [] [] :=
  ⟨rfl, nofun⟩

theorem append (h : Visits visits nodes) (h' : Visits visits' nodes') :
    Visits (visits ++ visits') (nodes ++ nodes') := by
  refine ⟨?_, List.forall_mem_append.mpr ⟨h.value_eq, h'.value_eq⟩⟩
  rw [List.map_append, h.nodes_eq, h'.nodes_eq]

/-- One more node behind those visited before. -/
theorem concat {node : Expr} {x : Float} (h : Visits visits nodes) (hx : node.value = .ok x) :
    Visits (visits ++ [⟨node, x⟩]) (nodes ++ [node]) :=
  h.append ⟨rfl, List.forall_mem_singleton.mpr hx⟩

end Visits

end Reckoner
