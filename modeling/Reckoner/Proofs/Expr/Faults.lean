import Reckoner.Proofs.Expr.Visits

/-!
# Faults in a Tree

Which of the faults in a tree is reported, and what has been evaluated by then.

Two kinds of nodes can be at fault by themselves, a number whose text spells none and an
operator that is no sign in front of its only operand (`Expr.fault?`). Whether a node is ever
asked depends on the others. An operator is asked after its operands, so a fault below it
comes first, and the right operand is not asked if there is a fault in the left one. All of this
is said by the order of the nodes alone: the nodes are gone through in postorder, and the first
one that is at fault ends it.

`Reports` says so of an outcome, the visits that led to it, and a list of nodes. Lists of nodes are
put together as trees are. A fault stays the first one whatever is put behind it, nodes without
a fault may be put before others, and a single node settles its own outcome once its operands
have values. One induction over the tree is then enough (`reports_walk`), whether the tree
has a value or not.

## Main definitions

* `Expr.fault?`: What is wrong with a node itself.
* `Expr.Settles`: The outcome of a node is its own fault, or a value if it has none.
* `Reports`: The first fault of some nodes is the outcome, and those before it were visited.

## Theorems

* `settles_number`, `applySign_settles`: The nodes that can be at fault.
* `Reports.extend`, `Reports.append`, `Reports.visit`: Lists of nodes put together.
* `reports_walk`: The evaluation of a tree reports the first fault of its nodes.
* `visits_of_value`: Every node of a tree that has a value is visited.
* `first_fault_reported`: The outcome and the visits by the order of the nodes.
-/

namespace Reckoner

namespace Expr

/-- What is wrong with a node itself, whatever its operands are: a number whose text is not read as
    one, or an operator in front of its only operand that is neither plus nor minus. -/
def fault? : Expr → Option EvalError
  | number literal =>
    if (Literal.value? literal).isSome then none else some (.invalidNumber literal)
  | unary op _ =>
    if op = .add ∨ op = .subtract then none else some (.unrecognizedUnaryOperator op)
  | _ => none

/-- The outcome of a node whose operands have values: its own fault, or a value if it has none. -/
def Settles (node : Expr) (outcome : Except EvalError Float) : Prop :=
  match node.fault? with
  | some cause => outcome = .error cause
  | none => ∃ x, outcome = .ok x

theorem settles_number (literal : String) : (number literal).Settles (Literal.value literal) := by
  rw [Settles, fault?, Literal.value]
  rcases Literal.value? literal with _ | x
  · rfl
  · exact ⟨x, rfl⟩

theorem applySign_settles (op : Operator) (operand : Expr) (a : Float) :
    (unary op operand).Settles (op.applySign a) := by
  cases op with
  | add => exact ⟨a, rfl⟩
  | subtract => exact ⟨-a, rfl⟩
  | _ => rfl

end Expr

/-- What comes of going through some nodes. If none of them is at fault there is a value and all
    of them were visited, otherwise the first fault is the outcome and the nodes before it were
    visited. -/
inductive Reports : Except EvalError Float → List Visit → List Expr → Prop
  | finished {x : Float} {visits : List Visit} {nodes : List Expr}
      (hfaultless : ∀ node ∈ nodes, node.fault? = none) (hvisits : Visits visits nodes) :
      Reports (.ok x) visits nodes
  | stopped {cause : EvalError} {visits : List Visit} {before : List Expr} {node : Expr}
      (hfaultless : ∀ node ∈ before, node.fault? = none) (hfault : node.fault? = some cause)
      (hvisits : Visits visits before) (behind : List Expr) :
      Reports (.error cause) visits (before ++ node :: behind)

namespace Reports

variable {outcome : Except EvalError Float} {visits visits' : List Visit}
  {nodes nodes' : List Expr}

/-- A fault stays the first one whatever nodes come behind it. -/
theorem extend {cause : EvalError} (h : Reports (.error cause) visits nodes) (more : List Expr) :
    Reports (.error cause) visits (nodes ++ more) := by
  cases h with
  | stopped hfaultless hfault hvisits behind =>
      rw [List.append_assoc, List.cons_append]
      exact .stopped hfaultless hfault hvisits (behind ++ more)

/-- Nodes without a fault may come before others. -/
theorem append {x : Float} (h : Reports (.ok x) visits nodes)
    (h' : Reports outcome visits' nodes') :
    Reports outcome (visits ++ visits') (nodes ++ nodes') := by
  cases h with
  | finished hfaultless hvisits =>
      cases h' with
      | finished hfaultless' hvisits' =>
          exact .finished (List.forall_mem_append.mpr ⟨hfaultless, hfaultless'⟩)
            (hvisits.append hvisits')
      | stopped hfaultless' hfault hvisits' behind =>
          rw [← List.append_assoc]
          exact .stopped (List.forall_mem_append.mpr ⟨hfaultless, hfaultless'⟩) hfault
            (hvisits.append hvisits') behind

/-- A node behind its operands. If there is a fault in these the node has the same outcome, and
    otherwise it settles its own. -/
theorem visit {node : Expr} {operands : Except EvalError Float} (h : Reports operands visits nodes)
    (hvalue : node.value = outcome)
    (hfailed : ∀ cause, operands = .error cause → outcome = .error cause)
    (hsettles : ∀ a, operands = .ok a → node.Settles outcome) :
    Reports outcome (node.visit outcome visits).2 (nodes ++ [node]) := by
  cases h with
  | @finished a _ _ hfaultless hvisits =>
      have hsettled := hsettles a rfl
      rw [Expr.Settles] at hsettled
      split at hsettled
      · rename_i cause hfault
        rw [hsettled]
        exact .stopped hfaultless hfault hvisits []
      · rename_i hnone
        rcases hsettled with ⟨x, hx⟩
        rw [hx] at hvalue ⊢
        exact .finished
          (List.forall_mem_append.mpr ⟨hfaultless, List.forall_mem_singleton.mpr hnone⟩)
          (hvisits.concat hvalue)
  | @stopped cause _ _ _ hfaultless hfault hvisits behind =>
      rw [hfailed cause rfl]
      exact (stopped hfaultless hfault hvisits behind).extend [node]

end Reports

namespace Expr

/-- The evaluation of a tree goes through its nodes in postorder. -/
theorem reports_walk (e : Expr) : Reports e.value e.visits e.postorder := by
  induction e with
  | statement body ih =>
      have hvalue := value_statement body
      rw [visits, walk, postorder, hvalue]
      exact ih.visit hvalue (fun _ h => h) fun a h => ⟨a, h⟩
  | group body ih =>
      have hvalue := value_group body
      rw [visits, walk, postorder, hvalue]
      exact ih.visit hvalue (fun _ h => h) fun a h => ⟨a, h⟩
  | number literal =>
      have hvalue := value_number literal
      have hnothing : Reports (.ok 0) [] [] := .finished (List.forall_mem_nil _) Visits.nil
      rw [visits, walk, postorder, hvalue]
      refine hnothing.visit hvalue (fun cause h => ?_) fun _ _ => settles_number literal
      cases h
  | unary op operand ih =>
      have hvalue := value_unary op operand
      rw [visits, walk, postorder, hvalue]
      refine ih.visit hvalue (fun cause h => ?_) fun a h => ?_
      · rw [h]
        rfl
      · rw [h]
        exact applySign_settles op operand a
  | binary op left right ihLeft ihRight =>
      have hvalue := value_binary op left right
      rw [postorder, hvalue]
      rcases hleft : left.walk with ⟨cause | a, leftVisits⟩
      · -- The right operand is not asked.
        have hcause : left.value = .error cause := congrArg Prod.fst hleft
        have hvisits : left.visits = leftVisits := congrArg Prod.snd hleft
        rw [hcause, hvisits] at ihLeft
        rw [visits, walk, hleft, hcause, List.append_assoc]
        exact ihLeft.extend _
      · have ha : left.value = .ok a := congrArg Prod.fst hleft
        have hvisits : left.visits = leftVisits := congrArg Prod.snd hleft
        rw [ha, hvisits] at ihLeft
        rw [ha] at hvalue
        rw [visits, walk, hleft, ha]
        refine (ihLeft.append ihRight).visit hvalue (fun cause h => ?_) fun b h => ?_
        · rw [h]
          rfl
        · rw [h]
          exact ⟨op.apply a b, rfl⟩

/-- Where a tree has a value every node has been visited. -/
theorem visits_of_value {e : Expr} {x : Float} (h : e.value = .ok x) :
    Visits e.visits e.postorder := by
  have hreports := reports_walk e
  rw [h] at hreports
  cases hreports with
  | finished _ hvisits => exact hvisits

end Expr

/-- The evaluation of a tree, however it was built, goes through its nodes in postorder up to the
    first one that is at fault.

    * There is a value if and only if no node is at fault.
    * Otherwise the outcome is the first fault, whatever faults come after it.
    * Visited are the nodes before the first fault and no others, in that order, each with its
      own value. -/
theorem first_fault_reported (e : Expr) :
    ((∃ x, e.value = .ok x) ↔ ∀ node ∈ e.postorder, node.fault? = none) ∧
      (∀ cause, e.value = .error cause ↔ e.postorder.findSome? Expr.fault? = some cause) ∧
      Visits e.visits (e.postorder.takeWhile fun node => node.fault?.isNone) := by
  have hreports := e.reports_walk
  generalize e.value = outcome at hreports ⊢
  generalize e.postorder = nodes at hreports ⊢
  have hpassed : ∀ {before : List Expr}, (∀ node ∈ before, node.fault? = none) →
      ∀ node ∈ before, node.fault?.isNone = true :=
    fun hfaultless node hnode => Option.isNone_iff_eq_none.mpr (hfaultless node hnode)
  cases hreports with
  | @finished x _ _ hfaultless hvisits =>
      have hall : nodes.takeWhile (fun node => node.fault?.isNone) = nodes :=
        List.takeWhile_eq_self_iff.mpr (hpassed hfaultless)
      rw [List.findSome?_eq_none_iff.mpr hfaultless, hall]
      exact ⟨iff_of_true ⟨x, rfl⟩ hfaultless, fun _ => iff_of_false nofun nofun, hvisits⟩
  | @stopped cause _ before node hfaultless hfault hvisits behind =>
      have hfirst : (before ++ node :: behind).findSome? Expr.fault? = some cause := by
        rw [List.findSome?_append, List.findSome?_eq_none_iff.mpr hfaultless, List.findSome?_cons,
          hfault]
        rfl
      have hbefore : (before ++ node :: behind).takeWhile (fun node => node.fault?.isNone)
          = before := by
        rw [List.takeWhile_append_of_pos (hpassed hfaultless), List.takeWhile_cons_of_neg,
          List.append_nil]
        rw [hfault]
        exact Bool.false_ne_true
      rw [hfirst, hbefore]
      refine ⟨iff_of_false nofun fun hall => ?_, fun _ => ?_, hvisits⟩
      · have hnone := hall node (List.mem_append_right before List.mem_cons_self)
        rw [hfault] at hnone
        cases hnone
      · rw [Except.error.injEq, Option.some.injEq]

/-- A power in front of a sum of which both operands are at fault. The fault in the left one is
    reported, and nothing but the number in front of it has been visited. -/
theorem left_fault_first :
    (Expr.unary .power (.binary .add
        (.binary .multiply (.number "2") (.unary .root (.number "1e5")))
        (.number ""))).value = .error (.invalidNumber "1e5") ∧
      Visits (Expr.unary .power (.binary .add
        (.binary .multiply (.number "2") (.unary .root (.number "1e5")))
        (.number ""))).visits [.number "2"] := by
  rcases first_fault_reported (.unary .power (.binary .add
    (.binary .multiply (.number "2") (.unary .root (.number "1e5"))) (.number "")))
    with ⟨-, hcause, hvisits⟩
  exact ⟨(hcause _).mpr (by decide +kernel), hvisits⟩

end Reckoner
