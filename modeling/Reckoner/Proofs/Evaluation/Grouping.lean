import Reckoner.Proofs.Evaluation.Failures

/-!
# Grouping

Parentheses say which tree is meant and nothing about its value.

A group and a statement pass on what their body comes to, a value or an error. So two trees
that differ in nothing but these have the same outcome, which is seen by taking them all
away (`Expr.bare`, `value_bare`).

The other way round, parentheses may be added anywhere. With a group around every operand a
tree is ordered, whatever its operators are, since a group binds more tightly than any
of them (`ordered_parenthesized`). Such a tree is given back by reading its text, and the
text has the value of the tree that the groups were added to. So there is a text for every
tree that consists of numbers and operators that can be written, although the text that it is
rendered to without the groups may be that of another tree with another value.

## Main definitions

* `Expr.bare`: A tree without its groups and statements.
* `Expr.parenthesized`: A tree with every operand in a group, and without its statements.

## Theorems

* `value_bare`, `value_eq_of_bare_eq`: Trees that differ in grouping have the same outcome.
* `bare_parenthesized`: Adding groups is a difference in grouping.
* `ordered_parenthesized`, `writable_parenthesized`: With its operands in groups a tree is
  canonical.
* `parenthesized_text_evaluates`: Every tree that can be written has a text with its value.
-/

namespace Reckoner

namespace Expr

/-- A tree without its groups and statements. -/
def bare : Expr → Expr
  | statement body => body.bare
  | group body => body.bare
  | number literal => number literal
  | unary op operand => unary op operand.bare
  | binary op left right => binary op left.bare right.bare

/-- A tree with every operand of an operator in a group, and without its statements. -/
def parenthesized : Expr → Expr
  | statement body => body.parenthesized
  | group body => group body.parenthesized
  | number literal => number literal
  | unary op operand => unary op (group operand.parenthesized)
  | binary op left right => binary op (group left.parenthesized) (group right.parenthesized)

/-- Groups and statements do not change the outcome. -/
theorem value_bare (e : Expr) : e.bare.value = e.value := by
  induction e with
  | statement body ih => exact ih.trans (value_statement body).symm
  | group body ih => exact ih.trans (value_group body).symm
  | number literal => rfl
  | unary op operand ih => rw [bare, value_unary, value_unary, ih]
  | binary op left right ihLeft ihRight =>
      rw [bare, value_binary, value_binary, ihLeft, ihRight]

/-- Trees that differ in grouping only have the same outcome. -/
theorem value_eq_of_bare_eq {e e' : Expr} (h : e.bare = e'.bare) : e.value = e'.value := by
  rw [← value_bare e, h, value_bare e']

theorem bare_parenthesized (e : Expr) : e.parenthesized.bare = e.bare := by
  induction e with
  | statement body ih => exact ih
  | group body ih => exact ih
  | number literal => rfl
  | unary op operand ih => rw [parenthesized, bare, bare, bare, ih]
  | binary op left right ihLeft ihRight =>
      rw [parenthesized, bare, bare, bare, bare, ihLeft, ihRight]

/-- Operands in groups bind tightly enough for any place. -/
theorem ordered_parenthesized (e : Expr) : e.parenthesized.Ordered := by
  induction e with
  | statement body ih => exact ih
  | group body ih => exact ih
  | number literal => trivial
  | unary op operand ih => exact ⟨Nat.le_succ Level.sign.rank, ih⟩
  | binary op left right ihLeft ihRight =>
      have hgroup : op.level.rank < Level.atom.rank :=
        Nat.lt_of_le_of_lt (operator_level_rank_le op) (by decide)
      exact ⟨Nat.le_of_lt hgroup, hgroup, ihLeft, ihRight⟩

theorem writable_parenthesized {e : Expr} (h : e.Writable) : e.parenthesized.Writable := by
  induction e with
  | statement body ih => exact ih h
  | group body ih => exact ih h
  | number literal => exact h
  | unary op operand ih => exact ⟨h.1, ih h.2⟩
  | binary op left right ihLeft ihRight => exact ⟨ihLeft h.1, ihRight h.2⟩

end Expr

/-- Grouping carries shape and no value.

    * Trees that are the same without their groups and statements have the same value or the same
      error, whatever else is wrong with them.
    * If a tree can be written, then the text that it has with its operands in groups is read as
      that tree, and it has the value of the tree without these groups, which there is. -/
theorem parenthesized_text_evaluates :
    (∀ e e' : Expr, e.bare = e'.bare → e.value = e'.value) ∧
      ∀ e : Expr, e.Writable →
        parse e.parenthesized.render = .ok (.statement e.parenthesized) ∧
          ∃ x, e.value = .ok x ∧ evaluate e.parenthesized.render = .ok x := by
  refine ⟨fun _ _ => Expr.value_eq_of_bare_eq, fun e h => ?_⟩
  have hread : parse e.parenthesized.render = .ok (.statement e.parenthesized) :=
    @parse_render_of_canonical (.statement e.parenthesized)
      ⟨e.ordered_parenthesized, Expr.writable_parenthesized h⟩
  rcases Expr.value_of_writable h with ⟨x, hx⟩
  have hsame : (Expr.statement e.parenthesized).value = .ok x := by
    rw [Expr.value_statement, Expr.value_eq_of_bare_eq e.bare_parenthesized, hx]
  exact ⟨hread, x, hx, evaluate_of_parse hread hsame⟩

/-- A sum under a minus sign, under a power. With its operands in groups it has a text, and without
    them that would be the text of a sum. -/
theorem power_of_negated_sum :
    (Expr.binary .power (.unary .subtract (.binary .add (.number "1") (.statement (.number ".5"))))
        (.group (.number "2."))).Writable ∧
      (∃ x, (Expr.binary .power
          (.unary .subtract (.binary .add (.number "1") (.statement (.number ".5"))))
          (.group (.number "2."))).value = .ok x ∧
        evaluate "(-((1) + (.5))) ** ((2.))" = .ok x) ∧
      (Expr.group (.unary .root (.statement (.number "1")))).bare
        = (Expr.statement (.unary .root (.group (.number "1")))).bare ∧
      (Expr.group (.unary .root (.statement (.number "1")))).value
        = (Expr.statement (.unary .root (.group (.number "1")))).value := by
  have hwritable : (Expr.binary .power
      (.unary .subtract (.binary .add (.number "1") (.statement (.number ".5"))))
      (.group (.number "2."))).Writable := by
    decide +kernel
  have hrender : (Expr.binary .power
      (.unary .subtract (.binary .add (.number "1") (.statement (.number ".5"))))
      (.group (.number "2."))).parenthesized.render = "(-((1) + (.5))) ** ((2.))" := by
    decide +kernel
  have hvalue := (parenthesized_text_evaluates.2 _ hwritable).2
  rw [hrender] at hvalue
  exact ⟨hwritable, hvalue, rfl, parenthesized_text_evaluates.1 _ _ rfl⟩

end Reckoner
