import Reckoner.CommandLine.Report
import Reckoner.Proofs.CommandLine.Logging
import Reckoner.Proofs.Lexer.Literals

/-!
# Failures on the Command Line

That it makes no difference to failures whether trees are shown or values.

Showing a tree needs the text to be read only, and showing a value needs the tree to
have one too. Since what is read has a value, both fail on the same texts and for the
same cause, and so they report the same. What differs on the error output are the records
of a verbose run, since nothing is evaluated, and so nothing logged, if trees are
shown. The records stand before the complaint of their expression.

In file mode the report is that of the lines, one after the other, so the same holds of
all of it.

None of this depends on the host, but for the error output. There it is needed that the log goes
by severity, so that reading leaves no records.

## Main definitions

* `Options.showTrees`, `Options.showValues`: The options with either thing to show.

## Theorems

* `shown_alike`: Both fail, with the same cause, or none does.
* `report_alike`, `runLine_alike`, `runLines_alike`, `run_alike`: The reports on one expression,
  on a line, on all lines of a text and on a request.
* `evaluate_fails_as_parse`: Evaluating a text adds no failure to reading it.
-/

namespace Reckoner

namespace Report

-- Joined reports are joined output by output.
theorem join_code (reports : List Report) :
    (join reports).code = (reports.map Report.code).foldr max 0 := by
  induction reports with
  | nil => rfl
  | cons report reports ih =>
      rw [List.map_cons, List.foldr_cons, ← ih]
      rfl

theorem join_stdout (reports : List Report) :
    (join reports).stdout = String.join (reports.map Report.stdout) := by
  induction reports with
  | nil => exact String.join_nil.symm
  | cons report reports ih =>
      rw [List.map_cons, String.join_cons, ← ih]
      rfl

theorem join_stderr (reports : List Report) :
    (join reports).stderr = String.join (reports.map Report.stderr) := by
  induction reports with
  | nil => exact String.join_nil.symm
  | cons report reports ih =>
      rw [List.map_cons, String.join_cons, ← ih]
      rfl

end Report

namespace Options

/-- These options, but trees are shown. -/
def showTrees (options : Options) : Options :=
  { options with ast := true }

/-- These options, but values are shown. -/
def showValues (options : Options) : Options :=
  { options with ast := false }

variable (options : Options) (text : String)

/-- Trees and values cannot be shown of the same texts, for the same cause. -/
theorem shown_alike :
    (∃ cause, options.showTrees.shown text = .error cause ∧
        options.showValues.shown text = .error cause) ∨
      ∃ tree x, options.showTrees.shown text = .ok (Expr.render tree) ∧
        options.showValues.shown text = .ok (Layout.result.write x) := by
  have htrees : options.showTrees.shown text
      = ((parse text).mapError .parse).map Expr.render := rfl
  have hvalues : options.showValues.shown text = (evaluate text).map Layout.result.write := rfl
  rw [htrees, hvalues]
  rcases hparse : parse text with cause | tree
  · refine Or.inl ⟨.parse cause, rfl, ?_⟩
    rw [evaluate_of_parse_error hparse]
    rfl
  · rcases value_of_parse hparse with ⟨x, hx⟩
    refine Or.inr ⟨tree, x, rfl, ?_⟩
    rw [evaluate_of_parse hparse hx]
    rfl

-- Nothing is logged if trees are shown, or if the run is quiet.
theorem logged_showTrees : options.showTrees.logged text = [] := by
  simp only [logged, showTrees, Bool.not_true, Bool.and_false, Bool.false_eq_true, if_false]

theorem logged_of_quiet (h : options.verbose = false) : options.logged text = [] := by
  simp only [logged, h, Bool.false_and, Bool.false_eq_true, if_false]

end Options

namespace Host

variable (host : Host) (options : Options)

theorem attempt_error_iff (text : String) (cause : Error) :
    (host.attempt options.showTrees text).1 = .error cause ↔
      (host.attempt options.showValues text).1 = .error cause := by
  rw [attempt_fst, attempt_fst]
  rcases options.shown_alike text with ⟨cause', htrees, hvalues⟩ | ⟨tree, x, htrees, hvalues⟩
  · rw [htrees, hvalues]
  · rw [htrees, hvalues]
    constructor
    · intro h
      cases h
    · intro h
      cases h

/-- The reports on an expression agree in the exit code, and in the complaint behind what
    is logged. -/
theorem report_alike (announcement text : String) :
    (host.report options.showValues announcement text).code
        = (host.report options.showTrees announcement text).code ∧
      (host.LogsBySeverity → (host.report options.showValues announcement text).stderr
        = String.join ((host.attempt options.showValues text).2.map host.record)
          ++ (host.report options.showTrees announcement text).stderr) := by
  rw [report_eq, report_eq]
  rcases options.shown_alike text with ⟨cause, htrees, hvalues⟩ | ⟨tree, x, htrees, hvalues⟩
  · rw [htrees, hvalues]
    refine ⟨rfl, fun h => ?_⟩
    rw [host.attempt_snd options.showTrees h, options.logged_showTrees, List.map_nil,
      String.join_nil, String.empty_append]
    simp only [String.append_assoc]
  · rw [htrees, hvalues]
    refine ⟨rfl, fun h => ?_⟩
    rw [host.attempt_snd options.showTrees h, options.logged_showTrees, List.map_nil,
      String.join_nil, String.append_empty]

/-- So do the reports on a line of a file. -/
theorem runLine_alike (line : List Char) (number : Nat) :
    (host.runLine options.showValues line number).code
        = (host.runLine options.showTrees line number).code ∧
      (host.LogsBySeverity → ∃ log, (host.runLine options.showValues line number).stderr
          = log ++ (host.runLine options.showTrees line number).stderr ∧
        (options.verbose = false → log = "")) := by
  unfold runLine
  rcases trim line with _ | ⟨c, rest⟩
  · exact ⟨rfl, fun _ => ⟨"", String.empty_append.symm, fun _ => rfl⟩⟩
  · dsimp only
    by_cases hc : c = '#'
    · rw [if_pos hc, if_pos hc]
      exact ⟨rfl, fun _ => ⟨"", String.empty_append.symm, fun _ => rfl⟩⟩
    · rw [if_neg hc, if_neg hc]
      rcases host.report_alike options ("Error on line " ++ toString number)
        (String.ofList (c :: rest)) with ⟨hcode, hstderr⟩
      refine ⟨hcode, fun h => ⟨_, hstderr h, fun hquiet => ?_⟩⟩
      rw [host.attempt_snd options.showValues h, options.showValues.logged_of_quiet _ hquiet]
      exact String.join_nil

/-- The reports on all lines of a text agree in the exit code, and if nothing is logged in
    all that is complained about. -/
theorem runLines_alike (first : Nat) (text : List Char) :
    (host.runLines options.showValues first text).code
        = (host.runLines options.showTrees first text).code ∧
      (host.LogsBySeverity → options.verbose = false →
        (host.runLines options.showValues first text).stderr
          = (host.runLines options.showTrees first text).stderr) := by
  unfold runLines
  rw [Report.join_code, Report.join_code, Report.join_stderr, Report.join_stderr]
  simp only [List.map_map]
  constructor
  · congr 1
    exact List.map_congr_left fun entry _ => (host.runLine_alike options entry.1 entry.2).1
  · intro h hquiet
    congr 1
    refine List.map_congr_left fun entry _ => ?_
    rcases (host.runLine_alike options entry.1 entry.2).2 h with ⟨log, hstderr, hlog⟩
    rw [hlog hquiet, String.empty_append] at hstderr
    exact hstderr

/-- The reports on a request agree in the exit code, and if nothing is logged in what is
    complained about. -/
theorem run_alike (content : Option ByteArray) (operand : String) :
    (host.run content (.run options.showValues operand)).code
        = (host.run content (.run options.showTrees operand)).code ∧
      (host.LogsBySeverity → options.verbose = false →
        (host.run content (.run options.showValues operand)).stderr
          = (host.run content (.run options.showTrees operand)).stderr) := by
  unfold run
  by_cases hfile : options.file = true
  · have hvalues : options.showValues.file = true := hfile
    have htrees : options.showTrees.file = true := hfile
    simp only [hvalues, htrees, if_true]
    split
    · exact host.runLines_alike options 1 _
    · exact ⟨rfl, fun _ _ => rfl⟩
  · have hvalues : ¬options.showValues.file = true := hfile
    have htrees : ¬options.showTrees.file = true := hfile
    simp only [hvalues, htrees]
    rcases host.report_alike options "Error" operand with ⟨hcode, hstderr⟩
    refine ⟨hcode, fun h hquiet => ?_⟩
    have hlog := hstderr h
    rw [host.attempt_snd options.showValues h, options.showValues.logged_of_quiet _ hquiet,
      List.map_nil, String.join_nil, String.empty_append] at hlog
    exact hlog

end Host

/-- Evaluating a text adds no failure to reading it.

    * A text has no value if and only if it cannot be read, and for the same cause. In
      particular no text fails in the evaluation of its tree.
    * Every number text that a lexer comes up with has a value.
    * On the command line the same expressions fail with the same causes whether trees or
      values are shown, and this on every host. The reports on an expression, on a line of a
      file, and on a whole run have the same exit code. If the log goes by severity they complain
      about the same, apart from the records of a verbose run, which stand before the complaint
      of their expression. -/
theorem evaluate_fails_as_parse :
    (∀ (source : String) (e : Error),
        evaluate source = .error e ↔ ∃ cause, parse source = .error cause ∧ e = .parse cause) ∧
      (∀ (source : String) (cause : EvalError), evaluate source ≠ .error (.eval cause)) ∧
      (∀ (l : Lexer) (literal : String), l.Reachable → l.Produces literal →
        ∃ x, Literal.value literal = .ok x) ∧
      (∀ (host : Host) (options : Options) (text : String) (cause : Error),
        (host.attempt options.showTrees text).1 = .error cause ↔
          (host.attempt options.showValues text).1 = .error cause) ∧
      (∀ (host : Host) (options : Options) (announcement text : String),
        (host.report options.showValues announcement text).code
            = (host.report options.showTrees announcement text).code ∧
          (host.LogsBySeverity → (host.report options.showValues announcement text).stderr
            = String.join ((host.attempt options.showValues text).2.map host.record)
              ++ (host.report options.showTrees announcement text).stderr)) ∧
      (∀ (host : Host) (options : Options) (line : List Char) (number : Nat),
        (host.runLine options.showValues line number).code
            = (host.runLine options.showTrees line number).code ∧
          (host.LogsBySeverity → ∃ log, (host.runLine options.showValues line number).stderr
              = log ++ (host.runLine options.showTrees line number).stderr ∧
            (options.verbose = false → log = ""))) ∧
      ∀ (host : Host) (options : Options) (content : Option ByteArray) (operand : String),
        (host.run content (.run options.showValues operand)).code
            = (host.run content (.run options.showTrees operand)).code ∧
          (host.LogsBySeverity → options.verbose = false →
            (host.run content (.run options.showValues operand)).stderr
              = (host.run content (.run options.showTrees operand)).stderr) := by
  refine ⟨fun _ _ => evaluate_eq_error, fun source cause h => ?_,
    fun _ _ => Lexer.value_of_produces, Host.attempt_error_iff, Host.report_alike,
    Host.runLine_alike, Host.run_alike⟩
  rcases evaluate_eq_error.mp h with ⟨_, -, hcause⟩
  cases hcause

/-- A literal with a dot in front and one at its end has a value, and a file with a faulty
    line is reported alike with trees and with values. -/
theorem faulty_line_reported_alike :
    (Lexer.ofText ".5.").Reachable ∧ (Lexer.ofText ".5.").Produces ".5." ∧
      (∃ x, Literal.value ".5." = .ok x) ∧
      Host.standard.LogsBySeverity ∧
      (Host.standard.run (some "1 + 2\n(.5.\n".toUTF8) (.run { file := true } "sums")).stderr
        = (Host.standard.run (some "1 + 2\n(.5.\n".toUTF8)
            (.run { file := true, ast := true } "sums")).stderr := by
  have hreachable := Lexer.Reachable.start ".5."
  have hproduces : (Lexer.ofText ".5.").Produces ".5." := .scanned rfl
  have hlog := Host.standard_logsBySeverity
  rcases evaluate_fails_as_parse with ⟨-, -, hliterals, -, -, -, hruns⟩
  exact ⟨hreachable, hproduces, hliterals _ _ hreachable hproduces, hlog,
    (hruns Host.standard { file := true } (some "1 + 2\n(.5.\n".toUTF8) "sums").2 hlog rfl⟩

end Reckoner
