import Reckoner.Expr.Value
import Reckoner.Parser

/-!
# Evaluating a Text

A text is read first and evaluated after that, and both leave a trail of
events: each token as it is scanned, each node as it gets its value, and at
the end the outcome. Reading stops at the first token that does not belong
to the expression, so that token is scanned too, and none behind it.

The events are data that an evaluation returns. Whether they are shown is up to
the caller, who may go by how grave they are. Only the outcome is more than a
trace.

## Main definitions

* `Event`: What happens in an evaluation.
* `Severity`, `Event.severity`: How grave an event is.
* `Evaluation`: An outcome with the events that led to it.
* `Evaluation.ofText`: Evaluates a text.
* `evaluate`: The value of the expression at the front of a text.
-/

namespace Reckoner

/-- What happens in the evaluation of a text. -/
inductive Event where
  /-- A token was scanned that begins at a position. -/
  | lexed (token : Token) (position : Nat)
  /-- A node has got a value. -/
  | evaluated (node : Expr) (value : Float)
  /-- The evaluation of a text has ended. -/
  | finished (source : String) (outcome : Except Error Float)

/-- How grave an event is, the least grave first. -/
inductive Severity where
  | trace
  | debug
  | warn
  deriving DecidableEq

/-- The place of a severity, from the least grave upwards. -/
def Severity.rank : Severity → Nat
  | trace => 0
  | debug => 1
  | warn => 2

instance : LE Severity where
  le a b := a.rank ≤ b.rank

instance (a b : Severity) : Decidable (a ≤ b) :=
  inferInstanceAs (Decidable (a.rank ≤ b.rank))

/-- How grave an event is. -/
def Event.severity : Event → Severity
  | lexed _ _ => .trace
  | evaluated _ _ => .trace
  | finished _ _ => .debug

/-- The events that scanning tokens leaves, the first one first. -/
def Lexer.events (l : Lexer) : List Event :=
  l.scanned.reverse.map fun (token, position) => .lexed token position

/-- The event that a visited node leaves. -/
def Visit.event (visit : Visit) : Event :=
  .evaluated visit.node visit.value

/-- An outcome with the events that led to it. -/
structure Evaluation where
  outcome : Except Error Float
  events : List Event

namespace Evaluation

/-- Closes an evaluation with the event that tells its outcome. -/
def close (source : String) (outcome : Except Error Float) (events : List Event) : Evaluation :=
  ⟨outcome, events ++ [.finished source outcome]⟩

/-- Evaluates the expression at the front of a text. -/
def ofText (source : String) : Evaluation :=
  match (Lexer.ofText source).readStatement with
  | (.error cause, l) => close source (.error (.parse cause)) l.events
  | (.ok tree, l) =>
    close source (tree.value.mapError .eval) (l.events ++ tree.visits.map Visit.event)

end Evaluation

/-- The value of the expression at the front of a text. -/
def evaluate (source : String) : Except Error Float :=
  (Evaluation.ofText source).outcome

end Reckoner
