import Reckoner.Proofs.Evaluation.Failures
import Reckoner.Proofs.Expr.Faults
import Reckoner.Proofs.Parser.Complete
import Reckoner.Proofs.Parser.Footprint

/-!
# The Log of an Evaluation

Which events an evaluation leaves, and in which order.

The events come out of two places that know nothing of each other. Deep inside the parser
a look at the next token makes the scanner take down a token, and after that the walk over
the tree takes down every node that gets a value. Neither list is written for the log; it
is put together from what a lexer and a walk leave behind.

What is in it can be said without either of them. The tokens in it are a beginning of the
tokens of the text with their places, up to the one that decides. The nodes in it are those
of the tree in the order of evaluation, all of them, since what has been read has a value.
So an evaluation cannot scan a token twice, or scan one that it does not need, or evaluate
while it is still scanning, without the log telling.

## Theorems

* `events_eq`: The events by what was scanned and visited.
* `log_exact`: The events of an evaluation.
-/

namespace Reckoner

/-- The events of an evaluation by what was scanned and what was visited. -/
theorem events_eq (source : String) :
    ∃ visited : List Visit,
      (Evaluation.ofText source).events
        = (Lexer.ofText source).readStatement.2.events ++ visited.map Visit.event
          ++ [.finished source (evaluate source)] ∧
        match parse source with
        | .ok tree => visited = tree.visits
        | .error _ => visited = [] := by
  unfold evaluate Evaluation.ofText parse
  rcases (Lexer.ofText source).readStatement with ⟨cause | tree, l⟩
  · exact ⟨[], by rw [List.map_nil, List.append_nil]; rfl, rfl⟩
  · exact ⟨tree.visits, rfl, rfl⟩

/-- The log of an evaluation is exact. Its events are

    * one for each token that was scanned, in the order of the text. These are the first ones of
      all tokens of the text, up to and including the one that decides what is read, each with
      the place where it begins, and the places increase,
    * one for each node of the tree, in the order in which operands come before their operator and
      the left operand before the right one, with the value of the node, or none if nothing
      could be read,
    * one that tells the text and the outcome. -/
theorem log_exact (source : String) :
    ∃ (scanned : List (Token × Nat)) (visited : List Visit),
      (Evaluation.ofText source).events
        = scanned.map (fun entry => .lexed entry.1 entry.2)
          ++ visited.map (fun visit => .evaluated visit.node visit.value)
          ++ [.finished source (evaluate source)] ∧
        scanned <+: (Lexer.ofText source).places ∧
        (Lexer.ofText source).places.map Prod.fst = (Lexer.ofText source).stream.tokens ∧
        (Lexer.ofText source).stream.DecidedBy (parse source) (scanned.map Prod.fst) ∧
        scanned.Pairwise (fun a b => a.2 < b.2) ∧
        (∀ entry ∈ scanned, entry.1.spelling <+: source.toList.drop entry.2) ∧
        match parse source with
        | .ok tree => Visits visited tree.postorder
        | .error _ => visited = [] := by
  rcases events_eq source with ⟨visited, hevents, hvisited⟩
  rcases scanned_decidedBy source with ⟨hbeginning, hdecided⟩
  refine ⟨_, visited, hevents, hbeginning, (Lexer.stream_tokens_eq_places rfl).symm, hdecided,
    (Lexer.ofText source).places_increasing.sublist hbeginning.sublist, fun entry hentry => ?_, ?_⟩
  · exact ((Lexer.ofText source).places_standing entry (hbeginning.subset hentry)).2
  · rcases hparse : parse source with cause | tree
    · rw [hparse] at hvisited
      exact hvisited
    · rw [hparse] at hvisited
      rcases value_of_parse hparse with ⟨x, hx⟩
      dsimp only at hvisited ⊢
      rw [hvisited]
      exact Expr.visits_of_value hx

/-- A number behind an expression is scanned, and the bad character behind that number is not. -/
theorem log_stops_behind_number :
    ∃ visited : List Visit,
      (Evaluation.ofText "1 2 $").events
        = [.lexed (.number "1") 0, .lexed (.number "2") 2]
          ++ visited.map (fun visit => .evaluated visit.node visit.value)
          ++ [.finished "1 2 $" (evaluate "1 2 $")] ∧
        Visits visited [.number "1", .statement (.number "1")] := by
  have hparse : parse "1 2 $" = .ok (.statement (.number "1")) := by decide +kernel
  have hplaces : (Lexer.ofText "1 2 $").places = [(.number "1", 0), (.number "2", 2)] := by
    decide +kernel
  have hstream : (Lexer.ofText "1 2 $").stream = .token (.number "1") (.token (.number "2")
      (.failing (.unrecognizedCharacter '$' 4))) := by
    decide +kernel
  rcases log_exact "1 2 $" with ⟨scanned, visited, hevents, hbeginning, -, hdecided, -, -, hvisited⟩
  rw [hparse] at hdecided hvisited
  rw [hplaces] at hbeginning
  have htokens : scanned.map Prod.fst = [.number "1", .number "2"] := by
    generalize scanned.map Prod.fst = seen at hdecided ⊢
    cases hdecided with
    | @expression _ w rest hsplits =>
        have hwhole := hsplits.whole_eq
        rw [hstream, ← hsplits.derives.tokens_eq] at hwhole
        have hrest : _ = rest := (TokenStream.token.inj hwhole).2
        rw [← hsplits.derives.tokens_eq, ← hrest]
        rfl
  have hscanned := hbeginning.eq_of_length (by rw [← List.length_map Prod.fst, htokens]; rfl)
  rw [hscanned] at hevents
  exact ⟨visited, hevents, hvisited⟩

end Reckoner
