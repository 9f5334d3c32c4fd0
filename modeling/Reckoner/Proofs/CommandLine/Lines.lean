import Reckoner.Proofs.CommandLine.Failures

/-!
# Files by their Lines

That a file is nothing but its lines.

The report on a file is made by joining reports, so what is written to one output has lost
the lines it came from. `LineOutcome` keeps them apart: the number of a line that was run,
what is logged for it, and what is shown for it or why nothing is. A text determines a
list of these (`Options.lineOutcomes`), in which only the lines that hold an expression
occur but all lines are counted, and both outputs and the exit code are read off the list
(`runLines_eq`).

What is shown for a line is what is shown for the same expression given alone. `Options.shown`
knows of no line and no announcement, and both modes of the program are described by it.

A line break cuts the list in two (`lineOutcomes_append`). The lines behind it are run as
those of a file of their own, with all numbers raised. It does not matter what stands on
either side of the line break: an empty text is an empty line, and a carriage return before
it is one of the blanks at the end of its line.

How a record looks is left to the host. It is only assumed that its log goes by severity.

## Main definitions

* `LineOutcome`: What comes of a line that is run.
* `LineOutcome.raise`: The same line further down.
* `Options.lineOutcome?`: What comes of a line, if it is run.
* `Options.lineOutcomes`: What comes of the lines of a text.

## Theorems

* `runLine_eq`: The report on a line by what comes of it.
* `runLines_eq`: The report on lines by what comes of them.
* `lineOutcomes_append`: A line break cuts the outcomes in two.
* `run_file`, `run_file_append`: The run on a file, and on a file cut in two.
* `file_reported_by_lines`: A file is reported line by line.
-/

namespace Reckoner

/-- What comes of a line that is run. -/
structure LineOutcome where
  /-- The number of the line. -/
  number : Nat
  /-- What is logged for it. -/
  logged : List Event
  /-- What is shown for it, or why nothing is. -/
  shown : Except Error String

namespace LineOutcome

/-- What the line writes to the output. -/
def stdout (outcome : LineOutcome) : String :=
  match outcome.shown with
  | .ok text => text ++ "\n"
  | .error _ => ""

/-- What the line writes to the error output, given how records look. -/
def stderr (record : Event → String) (outcome : LineOutcome) : String :=
  String.join (outcome.logged.map record) ++ match outcome.shown with
    | .ok _ => ""
    | .error cause =>
      "Error on line " ++ toString outcome.number ++ ": " ++ cause.message ++ "\n"

/-- Whether the line has failed. -/
def failed (outcome : LineOutcome) : Bool :=
  match outcome.shown with
  | .ok _ => false
  | .error _ => true

/-- The same line further down. -/
def raise (lines : Nat) (outcome : LineOutcome) : LineOutcome :=
  { outcome with number := outcome.number + lines }

/-- The report on the line. -/
def report (record : Event → String) (outcome : LineOutcome) : Report :=
  { stdout := outcome.stdout, stderr := outcome.stderr record, code := outcome.failed.toNat }

end LineOutcome

namespace Options

/-- What comes of the line with a given number. A line that is empty but for blanks, or begins
    with `#` behind them, is not run. -/
def lineOutcome? (options : Options) (number : Nat) (line : List Char) : Option LineOutcome :=
  let expression := trim line
  if expression = [] ∨ expression.head? = some '#' then none
  else some
    { number := number
      logged := options.logged (String.ofList expression)
      shown := options.shown (String.ofList expression) }

/-- What comes of the lines of a text that are run, with a number given to the first line and all
    lines counted. -/
def lineOutcomesFrom (options : Options) (first : Nat) (text : List Char) : List LineOutcome :=
  ((text.splitOn '\n').zipIdx first).filterMap fun (line, number) =>
    options.lineOutcome? number line

/-- What comes of the lines of a text that are run. -/
def lineOutcomes (options : Options) (text : String) : List LineOutcome :=
  options.lineOutcomesFrom 1 text.toList

end Options

namespace Host

variable {host : Host} (h : host.LogsBySeverity) (options : Options)
include h

/-- The report on a line by what comes of it. -/
theorem runLine_eq (line : List Char) (number : Nat) :
    host.runLine options line number
      = ((options.lineOutcome? number line).map (LineOutcome.report host.record)).getD {} := by
  unfold runLine Options.lineOutcome?
  rcases trim line with _ | ⟨c, rest⟩
  · rfl
  · by_cases hc : c = '#'
    · simp only [hc, List.head?_cons, or_true, if_true]
      rfl
    · have hnot : ¬(c :: rest = [] ∨ (c :: rest).head? = some '#') := by
        simp only [reduceCtorEq, List.head?_cons, Option.some.injEq, hc, or_self,
          not_false_eq_true]
      dsimp only
      rw [if_neg hc, if_neg hnot, report_eq, host.attempt_snd options h]
      rcases hshown : options.shown (String.ofList (c :: rest)) with cause | text
      · simp only [Option.map_some, Option.getD_some, LineOutcome.report, LineOutcome.stdout,
          LineOutcome.stderr, LineOutcome.failed, Bool.toNat_true, String.append_assoc]
      · simp only [Option.map_some, Option.getD_some, LineOutcome.report, LineOutcome.stdout,
          LineOutcome.stderr, LineOutcome.failed, Bool.toNat_false, String.append_empty]

end Host

namespace Report

theorem empty_append (report : Report) : {} ++ report = report := by
  change Report.mk ("" ++ report.stdout) ("" ++ report.stderr) (max 0 report.code) = report
  rw [String.empty_append, String.empty_append, Nat.zero_max]

-- Empty reports add nothing to the join.
theorem join_getD {α : Type} (f : α → Option Report) (entries : List α) :
    join (entries.map fun entry => (f entry).getD {}) = join (entries.filterMap f) := by
  induction entries with
  | nil => rfl
  | cons entry entries ih =>
      rcases hf : f entry with _ | report
      · rw [List.filterMap_cons_none hf, ← ih, List.map_cons, hf]
        exact empty_append _
      · rw [List.filterMap_cons_some hf, List.map_cons, hf]
        exact congrArg (report ++ ·) ih

end Report

-- The exit code tells whether a line has failed.
theorem LineOutcome.join_code (record : Event → String) (outcomes : List LineOutcome) :
    (Report.join (outcomes.map (report record))).code = (outcomes.any failed).toNat := by
  rw [Report.join_code]
  induction outcomes with
  | nil => rfl
  | cons outcome outcomes ih =>
      rw [List.map_cons, List.map_cons, List.foldr_cons, ih, List.any_cons]
      cases hfailed : outcome.failed with
      | _ => cases outcomes.any failed with
        | _ => simp only [report, hfailed]; rfl

/-- The report on lines by what comes of them. -/
theorem Host.runLines_eq {host : Host} (h : host.LogsBySeverity) (options : Options) (first : Nat)
    (text : List Char) :
    host.runLines options first text
      = Report.join
        ((options.lineOutcomesFrom first text).map (LineOutcome.report host.record)) := by
  unfold runLines Options.lineOutcomesFrom
  rw [List.map_filterMap, ← Report.join_getD]
  congr 1
  exact List.map_congr_left fun entry _ => runLine_eq h options entry.1 entry.2

namespace Options

variable (options : Options)

-- There is one line more than there are line breaks.
theorem length_splitOn (text : List Char) :
    (text.splitOn '\n').length = text.count '\n' + 1 := by
  induction text with
  | nil => rfl
  | cons c text ih =>
      rw [List.splitOn_cons_eq_if_modifyHead, List.count_cons]
      by_cases hc : (c == '\n') = true
      · rw [if_pos hc, if_pos hc, List.length_cons, ih]
      · rw [if_neg hc, if_neg hc, List.length_modifyHead, ih, Nat.add_zero]

-- Counting on from further down raises all numbers.
theorem lineOutcomesFrom_add (first lines : Nat) (text : List Char) :
    options.lineOutcomesFrom (first + lines) text
      = (options.lineOutcomesFrom first text).map (LineOutcome.raise lines) := by
  unfold lineOutcomesFrom
  rw [Nat.add_comm first, ← List.map_snd_add_zipIdx_eq_zipIdx, List.filterMap_map,
    List.map_filterMap]
  congr 1
  funext ⟨line, number⟩
  simp only [Function.comp_apply, Prod.map_apply, id_eq, lineOutcome?]
  split
  · rfl
  · rfl

/-- A line break cuts the outcomes in two. -/
theorem lineOutcomesFrom_append (first : Nat) (a b : List Char) :
    options.lineOutcomesFrom first (a ++ '\n' :: b)
      = options.lineOutcomesFrom first a
        ++ (options.lineOutcomesFrom first b).map (LineOutcome.raise (a.count '\n' + 1)) := by
  rw [← lineOutcomesFrom_add]
  unfold lineOutcomesFrom
  rw [List.splitOn_append_cons_self, List.zipIdx_append, List.filterMap_append, length_splitOn]

theorem lineOutcomes_append (a b : String) :
    options.lineOutcomes (a ++ "\n" ++ b)
      = options.lineOutcomes a
        ++ (options.lineOutcomes b).map (LineOutcome.raise (a.toList.count '\n' + 1)) := by
  have hbreak : (a ++ "\n" ++ b).toList = a.toList ++ '\n' :: b.toList := by
    rw [String.toList_append, String.toList_append, List.append_assoc]
    rfl
  rw [lineOutcomes, hbreak, lineOutcomesFrom_append]
  rfl

end Options

/-- The report on a file that is text by what comes of its lines. -/
theorem Host.run_file {host : Host} (h : host.LogsBySeverity) {options : Options}
    (hfile : options.file = true) {path : String} {content : ByteArray} {text : String}
    (htext : String.fromUTF8? content = some text) :
    let report := host.run (some content) (.run options path)
    report.stdout = String.join ((options.lineOutcomes text).map LineOutcome.stdout) ∧
      report.stderr
        = String.join ((options.lineOutcomes text).map (LineOutcome.stderr host.record)) ∧
      report.code = if (options.lineOutcomes text).any LineOutcome.failed then 1 else 0 := by
  have hreport : host.run (some content) (.run options path)
      = Report.join ((options.lineOutcomes text).map (LineOutcome.report host.record)) := by
    simp only [run, hfile, if_true, Option.bind_some, htext]
    exact runLines_eq h options 1 text.toList
  intro report
  rw [show report = _ from hreport, Report.join_stdout, Report.join_stderr, LineOutcome.join_code,
    List.map_map, List.map_map]
  refine ⟨rfl, rfl, ?_⟩
  cases (options.lineOutcomes text).any LineOutcome.failed with
  | true => rfl
  | false => rfl

-- The bytes of a text are read as that text.
theorem fromUTF8?_toUTF8 (text : String) : String.fromUTF8? text.toUTF8 = some text :=
  dif_pos text.isValidUTF8

/-- A line break cuts the run on a file in two. -/
theorem Host.run_file_append {host : Host} (h : host.LogsBySeverity) {options : Options}
    (hfile : options.file = true) (path : String) (a b : String) :
    let run := fun content : ByteArray => host.run (some content) (.run options path)
    (run (a ++ "\n" ++ b).toUTF8).stdout = (run a.toUTF8).stdout ++ (run b.toUTF8).stdout ∧
      (run (a ++ "\n" ++ b).toUTF8).stderr
        = (run a.toUTF8).stderr
          ++ String.join (((options.lineOutcomes b).map
            (LineOutcome.raise (a.toList.count '\n' + 1))).map
              (LineOutcome.stderr host.record)) ∧
      ((run (a ++ "\n" ++ b).toUTF8).code = 1
        ↔ (run a.toUTF8).code = 1 ∨ (run b.toUTF8).code = 1) := by
  intro run
  have hrun := fun text : String => @run_file host h options hfile path _ _ (fromUTF8?_toUTF8 text)
  rcases hrun a with ⟨hstdout, hstderr, hcode⟩
  rcases hrun b with ⟨hstdout', -, hcode'⟩
  rcases hrun (a ++ "\n" ++ b) with ⟨hboth, hbothErr, hbothCode⟩
  rw [options.lineOutcomes_append, List.map_append, String.join_append] at hboth hbothErr
  rw [options.lineOutcomes_append, List.any_append, List.any_map] at hbothCode
  -- The numbers are all that is raised.
  have hraised : (options.lineOutcomes b).any
        (LineOutcome.failed ∘ LineOutcome.raise (a.toList.count '\n' + 1))
      = (options.lineOutcomes b).any LineOutcome.failed := rfl
  rw [hraised] at hbothCode
  rw [List.map_map] at hboth
  refine ⟨hboth.trans (congrArg₂ (· ++ ·) hstdout hstdout').symm,
    hbothErr.trans (congrArg (· ++ _) hstderr.symm), ?_⟩
  dsimp only [run]
  rw [hcode, hcode', hbothCode]
  cases (options.lineOutcomes a).any LineOutcome.failed with
  | true => exact ⟨fun _ => Or.inl rfl, fun _ => rfl⟩
  | false => exact ⟨Or.inr, fun h => h.resolve_left Nat.zero_ne_one⟩

/-- A file is reported line by line.

    * A line comes to something if what is left without the blanks at its two ends is not empty
      and does not begin with `#`. There is only one way to take these blanks away. What is
      shown for the line is then the tree or the value of that
      expression, or why there is none. In a run that is verbose and evaluates one event is
      logged for it, which tells the expression and the outcome and is no trace, and in any
      other run none.
    * What a file writes to either output is what its lines write, in order, and the exit code
      is 1 if one of them has failed and else 0. If an expression can be shown the line writes
      it to the output, and otherwise it complains with its number on the error output, behind
      the record of what is logged.
    * The same is shown and logged for an expression that is given alone.
    * A line break cuts a run in two. Both outputs are those of the text before it and of the
      text behind it, the latter with the numbers raised by the lines before, and the run
      fails if one of the two does. -/
theorem file_reported_by_lines {host : Host} (h : host.LogsBySeverity) (ast verbose : Bool)
    (path : String) :
    let options : Options := { file := true, ast := ast, verbose := verbose }
    let run := fun content : ByteArray => host.run (some content) (.run options path)
    let shown := fun text : String =>
      if ast then ((parse text).mapError .parse).map Expr.render
      else (evaluate text).map Layout.result.write
    let logged := fun text : String =>
      if verbose && !ast then [Event.finished text (evaluate text)] else []
    (∀ (number : Nat) (line : List Char), (∃! expression, IsTrimmed line expression) ∧
        ∀ expression, IsTrimmed line expression →
          options.lineOutcome? number line
            = if expression = [] ∨ expression.head? = some '#' then none
              else some
                { number := number
                  logged := logged (String.ofList expression)
                  shown := shown (String.ofList expression) }) ∧
      (∀ text, ∀ event ∈ logged text, event.severity = .debug) ∧
      (∀ (content : ByteArray) (text : String), String.fromUTF8? content = some text →
        (run content).stdout
            = String.join ((options.lineOutcomes text).map LineOutcome.stdout) ∧
          (run content).stderr
            = String.join ((options.lineOutcomes text).map (LineOutcome.stderr host.record)) ∧
          (run content).code
            = if (options.lineOutcomes text).any LineOutcome.failed then 1 else 0) ∧
      (∀ (text : String) (content : Option ByteArray),
        host.run content (.run { options with file := false } text)
          = match shown text with
            | .ok shown =>
              { stdout := shown ++ "\n", stderr := String.join ((logged text).map host.record) }
            | .error cause =>
              { stderr := String.join ((logged text).map host.record) ++ "Error: "
                  ++ cause.message ++ "\n"
                code := 1 }) ∧
      ∀ a b : String,
        (run (a ++ "\n" ++ b).toUTF8).stdout = (run a.toUTF8).stdout ++ (run b.toUTF8).stdout ∧
          (run (a ++ "\n" ++ b).toUTF8).stderr
            = (run a.toUTF8).stderr
              ++ String.join (((options.lineOutcomes b).map
                (LineOutcome.raise (a.toList.count '\n' + 1))).map
                  (LineOutcome.stderr host.record)) ∧
          ((run (a ++ "\n" ++ b).toUTF8).code = 1
            ↔ (run a.toUTF8).code = 1 ∨ (run b.toUTF8).code = 1) := by
  intro options run shown logged
  have hrun := fun (content : ByteArray) (text : String) =>
    @Host.run_file host h options rfl path content text
  refine ⟨fun number line => ⟨⟨trim line, isTrimmed_trim line, fun _ htrimmed =>
    (isTrimmed_iff.mp htrimmed).symm⟩, fun expression htrimmed => ?_⟩, fun text event hevent => ?_,
    hrun, fun text _ => host.runText_eq { options with file := false } h text,
    Host.run_file_append h rfl path⟩
  · rw [← isTrimmed_iff.mp htrimmed]
    rfl
  · have hone : event ∈ if verbose && !ast then [Event.finished text (evaluate text)] else [] :=
      hevent
    split at hone
    · rw [List.mem_singleton.mp hone]
      rfl
    · cases hone

/-- A comment behind a blank, an expression that has no operand before a carriage return, and a
    group that is not closed on the third line. -/
theorem second_and_third_line_complained_about :
    Host.standard.LogsBySeverity ∧
      String.fromUTF8? " # sums\n1 +\r\n(3".toUTF8 = some " # sums\n1 +\r\n(3" ∧
      (Host.standard.run (some " # sums\n1 +\r\n(3".toUTF8)
          (.run { file := true, verbose := true } "sums")).stdout = "" ∧
      (Host.standard.run (some " # sums\n1 +\r\n(3".toUTF8)
          (.run { file := true, verbose := true } "sums")).stderr
        = "DEBUG calcengine: evaluation failed source=\"1 +\" error=Unexpected end of expression.\n"
          ++ "Error on line 2: Unexpected end of expression.\n"
          ++ "DEBUG calcengine: evaluation failed source=\"(3\" "
          ++ "error=Expected \")\", got end of input.\n"
          ++ "Error on line 3: Expected \")\", got end of input.\n" ∧
      (Host.standard.run (some " # sums\n1 +\r\n(3".toUTF8)
          (.run { file := true, verbose := true } "sums")).code = 1 := by
  have hlog := Host.standard_logsBySeverity
  have htext := fromUTF8?_toUTF8 " # sums\n1 +\r\n(3"
  rcases (file_reported_by_lines hlog false true "sums").2.2.1 _ _ htext with
    ⟨hstdout, hstderr, hcode⟩
  refine ⟨hlog, htext, hstdout.trans ?_, hstderr.trans ?_, hcode.trans ?_⟩
  · decide +kernel
  · decide +kernel
  · decide +kernel

end Reckoner
