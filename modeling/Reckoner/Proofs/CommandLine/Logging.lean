import Reckoner.CommandLine.Basic
import Reckoner.Proofs.Evaluation.Log

/-!
# Shown and Logged

What is shown for an expression and what is logged on the way, each without the other.

What is shown does not depend on the host at all (`attempt_fst`). What is logged
does, since the environment may ask for anything to be logged or for nothing. If the log goes
by severity, of all events of an evaluation only the last one can be logged, because the others
are traces. So a run that is verbose and evaluates has one event to log, which tells the text
and the outcome, and any other run has none (`attempt_snd`).

## Main definitions

* `Options.shown`: What is shown for an expression.
* `Options.logged`: What is logged for it.

## Theorems

* `LogsBySeverity.logs_iff`: Which events are logged.
* `attempt_fst`: What is shown does not depend on the host.
* `attempt_snd`: What is logged if the log goes by severity.
* `report_eq`: The report on an expression.
* `runText_eq`: The report on an expression that is given alone.
-/

namespace Reckoner

namespace Options

variable (options : Options) (text : String)

/-- What is shown for an expression: its tree, or its value. -/
def shown : Except Error String :=
  if options.ast then ((parse text).mapError .parse).map Expr.render
  else (evaluate text).map Layout.result.write

/-- What is logged for an expression. It is one event if a run is verbose and has something to
    evaluate. -/
def logged : List Event :=
  if options.verbose && !options.ast then [.finished text (evaluate text)] else []

end Options

namespace Host

variable {host : Host} {options : Options}

/-- An event is logged if it is grave enough. -/
theorem LogsBySeverity.logs_iff (h : host.LogsBySeverity) (event : Event) :
    host.logs options event = true
      ↔ (if options.verbose then .debug else .warn) ≤ event.severity := by
  rw [logs, h.filter?, Option.getD_none, h.filterFrom]

-- Nothing is so grave that it would be logged in a quiet run.
theorem LogsBySeverity.not_logs_of_quiet (h : host.LogsBySeverity)
    (hquiet : options.verbose = false) (event : Event) : host.logs options event = false := by
  rw [Bool.eq_false_iff, ne_eq, h.logs_iff, hquiet]
  cases event with
  | finished source outcome => exact (by decide : ¬Severity.warn ≤ .debug)
  | _ => exact (by decide : ¬Severity.warn ≤ .trace)

-- Traces are not logged in any run.
theorem LogsBySeverity.not_logs_trace (h : host.LogsBySeverity) {event : Event}
    (htrace : event.severity = .trace) : host.logs options event = false := by
  rw [Bool.eq_false_iff, ne_eq, h.logs_iff, htrace]
  cases options.verbose with
  | _ => decide

-- So nothing is logged while a text is scanned and a tree is visited.
theorem LogsBySeverity.filter_scanned (h : host.LogsBySeverity) (l : Lexer) :
    l.events.filter (host.logs options) = [] := by
  rw [List.filter_eq_nil_iff]
  intro event hevent
  rcases List.mem_map.mp hevent with ⟨entry, -, rfl⟩
  rw [h.not_logs_trace rfl]
  exact Bool.false_ne_true

theorem LogsBySeverity.filter_visited (h : host.LogsBySeverity) (visited : List Visit) :
    (visited.map Visit.event).filter (host.logs options) = [] := by
  rw [List.filter_eq_nil_iff]
  intro event hevent
  rcases List.mem_map.mp hevent with ⟨visit, -, rfl⟩
  rw [h.not_logs_trace rfl]
  exact Bool.false_ne_true

/-- Of all events of an evaluation only the last one is logged, and only in a verbose run. -/
theorem LogsBySeverity.filter_evaluation (h : host.LogsBySeverity) (text : String) :
    (Evaluation.ofText text).events.filter (host.logs options)
      = if options.verbose then [.finished text (evaluate text)] else [] := by
  rcases events_eq text with ⟨visited, hevents, -⟩
  rw [hevents, List.filter_append, List.filter_append, h.filter_scanned, h.filter_visited,
    List.nil_append, List.nil_append]
  cases hverbose : options.verbose with
  | true =>
      have hlast : host.logs options (.finished text (evaluate text)) = true := by
        rw [h.logs_iff, hverbose]
        exact Nat.le_refl _
      rw [List.filter_cons_of_pos hlast]
      rfl
  | false =>
      rw [List.filter_cons, h.not_logs_of_quiet hverbose]
      rfl

variable (host options)

/-- What is shown does not depend on the host. -/
theorem attempt_fst (text : String) : (host.attempt options text).1 = options.shown text := by
  unfold attempt Options.shown parse
  cases options.ast with
  | true =>
      rcases (Lexer.ofText text).readStatement with ⟨cause | tree, l⟩
      · rfl
      · rfl
  | false => rfl

/-- What is logged if the log goes by severity. -/
theorem attempt_snd (h : host.LogsBySeverity) (text : String) :
    (host.attempt options text).2 = options.logged text := by
  unfold attempt Options.logged
  cases options.ast with
  | true =>
      rw [if_pos rfl, Bool.not_true, Bool.and_false, if_neg Bool.false_ne_true]
      rcases (Lexer.ofText text).readStatement with ⟨cause | tree, l⟩
      · exact h.filter_scanned l
      · exact h.filter_scanned l
  | false =>
      rw [if_neg Bool.false_ne_true, Bool.not_false, Bool.and_true]
      exact h.filter_evaluation text

/-- The report on an expression by what is shown and what is logged. -/
theorem report_eq (announcement text : String) :
    host.report options announcement text
      = match options.shown text with
        | .ok shown =>
          { stdout := shown ++ "\n"
            stderr := String.join ((host.attempt options text).2.map host.record) }
        | .error cause =>
          { stderr := String.join ((host.attempt options text).2.map host.record)
              ++ announcement ++ ": " ++ cause.message ++ "\n"
            code := 1 } := by
  rw [← host.attempt_fst options text]
  rfl

/-- The report on an expression that is given alone, if the log goes by severity. -/
theorem runText_eq (h : host.LogsBySeverity) (text : String) :
    host.runText options text
      = match options.shown text with
        | .ok shown =>
          { stdout := shown ++ "\n", stderr := String.join ((options.logged text).map host.record) }
        | .error cause =>
          { stderr := String.join ((options.logged text).map host.record) ++ "Error: "
              ++ cause.message ++ "\n"
            code := 1 } := by
  have hwords : ∀ log : String, log ++ "Error" ++ ": " = log ++ "Error: " :=
    fun log => String.append_assoc
  have hreport := host.report_eq options "Error" text
  rw [host.attempt_snd options h, hwords] at hreport
  exact hreport

end Host

end Reckoner
