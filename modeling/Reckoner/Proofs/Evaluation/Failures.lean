import Reckoner.Evaluation
import Reckoner.Proofs.Expr.Value
import Reckoner.Proofs.Parser.Canonical

/-!
# Failures of an Evaluation

Why evaluating a text fails, if it does.

Evaluating is reading and then walking over the tree, and either could fail. On a text
the second never does. What is read from a text is canonical, so its literals have the
form of literals and only signs stand in front of operands, and every such tree has a
value. An evaluation fails therefore exactly where reading does, and with the same cause.

## Theorems

* `evaluate_eq`: An evaluation by what is read.
* `value_of_parse`: What is read has a value.
* `evaluate_of_parse`: It is the value of the text.
* `evaluate_of_parse_error`: Where nothing is read there is no value.
* `evaluate_eq_error`: There is no other reason to have none.
-/

namespace Reckoner

/-- An evaluation by what is read, with the events left out. -/
theorem evaluate_eq (source : String) :
    evaluate source = match parse source with
      | .error cause => .error (.parse cause)
      | .ok tree => tree.value.mapError .eval := by
  unfold evaluate Evaluation.ofText parse
  rcases (Lexer.ofText source).readStatement with ⟨cause | tree, l⟩
  · rfl
  · rfl

/-- What is read from a text has a value. -/
theorem value_of_parse {source : String} {tree : Expr} (h : parse source = .ok tree) :
    ∃ x, tree.value = .ok x := by
  have hcanonical := canonical_of_parse h
  cases tree with
  | statement body => exact Expr.value_of_writable hcanonical.2
  | _ => exact hcanonical.elim

/-- The value of what is read from a text is the value of the text. -/
theorem evaluate_of_parse {source : String} {tree : Expr} {x : Float}
    (h : parse source = .ok tree) (hx : tree.value = .ok x) : evaluate source = .ok x := by
  rw [evaluate_eq, h]
  dsimp only
  rw [hx]
  rfl

theorem evaluate_of_parse_error {source : String} {cause : ParseError}
    (h : parse source = .error cause) : evaluate source = .error (.parse cause) := by
  rw [evaluate_eq, h]

/-- A text that has no value has none because it cannot be read. -/
theorem evaluate_eq_error {source : String} {e : Error} :
    evaluate source = .error e ↔ ∃ cause, parse source = .error cause ∧ e = .parse cause := by
  rcases hparse : parse source with cause | tree
  · rw [evaluate_of_parse_error hparse, Except.error.injEq]
    constructor
    · rintro rfl
      exact ⟨cause, rfl, rfl⟩
    · rintro ⟨cause', hcause, rfl⟩
      rw [Except.error.inj hcause]
  · rcases value_of_parse hparse with ⟨x, hx⟩
    rw [evaluate_of_parse hparse hx]
    constructor
    · intro h
      cases h
    · rintro ⟨cause, hcause, -⟩
      cases hcause

end Reckoner
