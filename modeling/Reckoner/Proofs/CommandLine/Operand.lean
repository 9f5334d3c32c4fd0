import Reckoner.Proofs.CommandLine.Arguments
import Reckoner.Proofs.CommandLine.Lines
import Reckoner.Proofs.Lexer.Cutting
import Reckoner.Proofs.Parser.Verdict
import Mathlib.Data.List.Induction

/-!
# The Operand of a Command Line

That an expression is never taken for options, wherever they stand.

An expression may begin with minus signs, and so do all arguments that give options. What
keeps them apart is the character behind the signs. In options it is a letter, since every
name of an option begins with one (`Flag.isAlpha_letter`, `Flag.exists_name_eq`). In an
expression it is not, because no token begins with a letter and signs alone are no
expression (`exists_parse_error_of_minusSigns`).

All else is up to the reader of the arguments. It takes what is not made of options for the
operand, and it lets options stand before and behind it. So options are put around the
operand one after the other, and with each of them the reader is as certain of the operand as
before (`request_before`, `request_after`). If each option is given once, what is in force
does not depend on how they are spelled, bundled or ordered.

## Main definitions

* `Arrangement`: A command line around an operand.

## Theorems

* `exists_parse_error_of_minusSigns`: Signs, or signs before a letter, cannot be read.
* `not_givesOptions_of_parse`: A text that can be read is not made of options.
* `request_arguments`: What is asked for by an arrangement.
* `run_of_parse`: The report on a text that can be read.
* `readable_text_is_operand`: A text that can be read is the operand among any options.
-/

namespace Reckoner

namespace Flag

-- Both names begin with a letter.
theorem isAlpha_letter (flag : Flag) : flag.letter.isAlpha = true := by
  cases flag with
  | _ => rfl

theorem exists_name_eq (flag : Flag) : ∃ c rest, flag.name = c :: rest ∧ c.isAlpha = true := by
  cases flag with
  | _ => exact ⟨_, _, rfl, rfl⟩

end Flag

section MinusSigns

-- Minus signs are tokens, whatever stands behind them, and the scan goes on there.
theorem tokenizes_minusSigns (n : Nat) (rest : List Char) :
    Tokenizes (List.replicate n '-' ++ rest) (List.replicate n (.operator .subtract)) rest := by
  induction n with
  | zero => exact .done rest
  | succ n ih => exact (@tokenizes_operator _ .subtract nofun).append ih

theorem scan_minusSigns (n : Nat) (stream : TokenStream) :
    (List.replicate n (Token.operator .subtract) ++ stream).scan .operand 0
      = stream.scan .operand 0 := by
  induction n with
  | zero => rfl
  | succ n ih => exact (TokenStream.scan_of_step rfl _).trans ih

/-- A text of minus signs cannot be read, and neither can one with a letter behind them. -/
theorem exists_parse_error_of_minusSigns {text : String} {n : Nat} {rest : List Char}
    (htext : text.toList = List.replicate n '-' ++ rest)
    (hrest : ∀ c ∈ rest.head?, c.isAlpha = true) : ∃ cause, parse text = .error cause := by
  have htokens := tokenizes_minusSigns n rest
  rw [← htext] at htokens
  cases rest with
  | nil =>
      refine ⟨.unexpectedEndOfInput, parse_of_scan_error ?_⟩
      rw [stream_ofText htokens, scan_minusSigns]
      rfl
  | cons c behind =>
      have hc : c.isAlpha = true := hrest c rfl
      refine ⟨.lexical (.unrecognizedCharacter c (List.replicate n '-').length),
        parse_of_scan_error ?_⟩
      rw [stream_ofText_failing htext htokens (isBlank_of_isAlpha hc) (not_front_of_isAlpha hc),
        scan_minusSigns]
      rfl

end MinusSigns

/-- A text that can be read is not made of options. -/
theorem not_givesOptions_of_parse {text : String} {tree : Expr} (h : parse text = .ok tree) :
    ¬GivesOptions text.toList := by
  -- Behind the minus signs there is something, and it is no letter.
  have hbehind : ∀ (n : Nat) (rest : List Char), text.toList = List.replicate n '-' ++ rest →
      ¬∀ c ∈ rest.head?, c.isAlpha = true := by
    intro n rest htext hrest
    rcases exists_parse_error_of_minusSigns htext hrest with ⟨cause, herror⟩
    rw [h] at herror
    cases herror
  intro hgives
  generalize htext : text.toList = argument at hgives
  cases hgives with
  | marker => exact hbehind 2 [] htext fun c hc => by cases hc
  | long flag =>
      rcases flag.exists_name_eq with ⟨c, rest, hname, hc⟩
      rw [hname] at htext
      refine hbehind 2 (c :: rest) htext fun c' hc' => ?_
      rw [← Option.some.inj hc']
      exact hc
  | valued flag value =>
      rcases flag.exists_name_eq with ⟨c, rest, hname, hc⟩
      rw [hname] at htext
      refine hbehind 2 (c :: (rest ++ '=' :: value)) htext fun c' hc' => ?_
      rw [← Option.some.inj hc']
      exact hc
  | short first others =>
      refine hbehind 1 ((first :: others).map Flag.letter) htext fun c hc => ?_
      rw [← Option.some.inj hc]
      exact first.isAlpha_letter

theorem Switch.given_append (a b : List Switch) : given (a ++ b) = given a ++ given b :=
  List.flatMap_append

namespace Host.ReadsOptions

variable {host : Host} (h : host.ReadsOptions) {text : String}
include h

/-- Options behind the operand. -/
theorem request_after (htext : ¬GivesOptions text.toList) {switches : List Switch}
    (haccepts : Options.Accepts {} (Switch.given switches)) :
    host.request (text :: switches.map Switch.text)
      = .run (Options.adding {} (Switch.given switches)) text := by
  induction switches using List.reverseRecOn with
  | nil => exact h.operand text htext
  | append_singleton switches switch ih =>
      have hlast : Switch.given [switch] = switch.flags := List.append_nil _
      rw [Switch.given_append, hlast] at haccepts ⊢
      rcases (Options.accepts_append {}).mp haccepts with ⟨hbefore, hswitch⟩
      -- Neither the operand nor an option says that there are no more options.
      have hmarker : "--" ∉ text :: switches.map Switch.text := by
        intro hmem
        rcases List.mem_cons.mp hmem with heq | hmem
        · rw [← heq] at htext
          exact htext .marker
        · rcases List.mem_map.mp hmem with ⟨switch', -, heq⟩
          exact switch'.text_ne_marker heq
      rw [List.map_append, List.map_singleton, ← List.cons_append, Options.adding_append]
      exact h.behind switch _ _ text (ih hbefore) hswitch hmarker

/-- Options before what is read already. -/
theorem request_before {arguments : List String} {options : Options}
    (hread : host.request arguments = .run options text) {switches : List Switch}
    (haccepts : options.Accepts (Switch.given switches)) :
    host.request (switches.map Switch.text ++ arguments)
      = .run (options.adding (Switch.given switches)) text := by
  induction switches with
  | nil =>
      rw [Switch.given, List.flatMap_nil, options.adding_nil]
      exact hread
  | cons switch switches ih =>
      have hgiven : Switch.given (switch :: switches) = switch.flags ++ Switch.given switches :=
        List.flatMap_cons
      rw [hgiven] at haccepts ⊢
      rcases options.accepts_append.mp haccepts.swap with ⟨hothers, hswitch⟩
      rw [options.adding_append, options.adding_comm]
      exact h.before switch _ _ text (ih hothers) hswitch

end Host.ReadsOptions

/-- A command line around an operand: the options before it and those behind it. They are about
    what is shown and logged, and none is given twice. -/
structure Arrangement where
  before : List Switch
  after : List Switch
  nodup : (Switch.given (before ++ after)).Nodup
  kinds : ∀ flag ∈ Switch.given (before ++ after), flag = .ast ∨ flag = .verbose

namespace Arrangement

variable (a : Arrangement)

/-- The arguments, with the operand in its place. -/
def arguments (operand : String) : List String :=
  a.before.map Switch.text ++ operand :: a.after.map Switch.text

/-- Whether an option is given. -/
def gives (flag : Flag) : Bool :=
  (Switch.given (a.before ++ a.after)).contains flag

theorem accepts : Options.Accepts {} (Switch.given (a.before ++ a.after)) where
  nodup := a.nodup
  settable flag hflag := by
    rcases a.kinds flag hflag with rfl | rfl
    · exact ⟨Flag.noConfusion, Flag.noConfusion⟩
    · exact ⟨Flag.noConfusion, Flag.noConfusion⟩
  fresh flag _ := by
    cases flag with
    | _ => rfl

/-- What is asked for is to handle the operand with the options given. -/
theorem request_arguments {host : Host} (h : host.ReadsOptions) {text : String}
    (htext : ¬GivesOptions text.toList) :
    host.request (a.arguments text)
      = .run { ast := a.gives .ast, verbose := a.gives .verbose } text := by
  have haccepts := a.accepts
  rw [Switch.given_append] at haccepts
  rcases (Options.accepts_append {}).mp haccepts.swap with ⟨hafter, hbefore⟩
  have hread := h.request_before (h.request_after htext hafter) hbefore
  rw [Options.adding_comm, ← Options.adding_append, ← Switch.given_append] at hread
  have hfile : (Switch.given (a.before ++ a.after)).contains .file = false := by
    rw [Bool.eq_false_iff, ne_eq, List.contains_iff_mem]
    intro hmem
    rcases a.kinds .file hmem with heq | heq
    · cases heq
    · cases heq
  rw [arguments, hread]
  simp only [Options.adding, hfile, gives, Bool.false_or]

end Arrangement

/-- The report on a text that can be read, given alone. -/
theorem Host.run_of_parse {host : Host} (hlog : host.LogsBySeverity) {text : String} {tree : Expr}
    {x : Float} (h : parse text = .ok tree) (hx : evaluate text = .ok x) (ast verbose : Bool)
    (content : Option ByteArray) :
    host.run content (.run { ast := ast, verbose := verbose } text)
      = { stdout := (if ast then tree.render else Layout.result.write x) ++ "\n"
          stderr := if verbose && !ast then host.record (.finished text (.ok x)) else "" } := by
  have hreport := host.runText_eq { ast := ast, verbose := verbose } hlog text
  simp only [Options.shown, Options.logged, h, hx] at hreport
  refine Eq.trans rfl (hreport.trans ?_)
  cases ast with
  | true =>
      rw [Bool.not_true, Bool.and_false]
      rfl
  | false =>
      cases verbose with
      | true =>
          simp only [Bool.not_false, Bool.and_true, if_true, List.map_singleton, String.join_cons,
            String.join_nil, String.append_empty]
          rfl
      | false => rfl

/-- A text that can be read is the operand among any options, however many minus signs it begins
    with. The reader of the arguments is only expected to take for the operand what is not made of
    options, and to let options stand before and behind it, and the log to go by severity.

    * The text has a value, and in any arrangement of options around it what is asked for is to
      handle the text with these options. The exit code is 0. What is shown is the tree if that
      is asked for and else the value, and a line break behind it.
    * One event is logged if evaluations are logged and there is one, and else none. It is no
      trace, and it tells the text and the value. Nothing is written to the error output but the
      record of this event.
    * Whether evaluations are logged, and how the options are arranged, has no influence on
      the output and on the exit code. -/
theorem readable_text_is_operand {host : Host} (hlog : host.LogsBySeverity)
    (hoptions : host.ReadsOptions) {text : String} {tree : Expr} (h : parse text = .ok tree) :
    ∃ x : Float, evaluate text = .ok x ∧
      (∀ (a : Arrangement) (content : Option ByteArray),
        let options : Options := { ast := a.gives .ast, verbose := a.gives .verbose }
        let report := host.run content (host.request (a.arguments text))
        host.request (a.arguments text) = .run options text ∧
          report.code = 0 ∧
          report.stdout
            = (if a.gives .ast then tree.render else Layout.result.write x) ++ "\n" ∧
          (host.attempt options text).2
            = (if a.gives .verbose && !a.gives .ast then [.finished text (.ok x)] else []) ∧
          (Event.finished text (.ok x)).severity = .debug ∧
          report.stderr
            = if a.gives .verbose && !a.gives .ast then host.record (.finished text (.ok x))
              else "") ∧
      ∀ (a b : Arrangement) (content content' : Option ByteArray),
        a.gives .ast = b.gives .ast →
          (host.run content (host.request (a.arguments text))).stdout
              = (host.run content' (host.request (b.arguments text))).stdout ∧
            (host.run content (host.request (a.arguments text))).code
              = (host.run content' (host.request (b.arguments text))).code := by
  rcases value_of_parse h with ⟨x, hvalue⟩
  have hx := evaluate_of_parse h hvalue
  have hrequest := fun a : Arrangement =>
    a.request_arguments hoptions (not_givesOptions_of_parse h)
  have hrun := fun (a : Arrangement) (content : Option ByteArray) =>
    Host.run_of_parse hlog h hx (a.gives .ast) (a.gives .verbose) content
  refine ⟨x, hx, fun a content => ?_, fun a b content content' hast => ?_⟩
  · intro options report
    have hreport : report = _ :=
      (congrArg (host.run content) (hrequest a)).trans (hrun a content)
    have hlogged := host.attempt_snd options hlog text
    rw [Options.logged, hx] at hlogged
    refine ⟨hrequest a, ?_⟩
    rw [hreport]
    exact ⟨rfl, rfl, hlogged, rfl, rfl⟩
  · rw [hrequest, hrequest, hrun, hrun, hast]
    exact ⟨rfl, rfl⟩

/-- Two minus signs before a group, between a short option and a long one, before a bundle of both,
    and before one of them. -/
theorem negated_group_between_options :
    let host := Host.standard
    let tree : Expr := .statement (.unary .subtract (.unary .subtract
      (.group (.binary .subtract (.number "2") (.number "1")))))
    host.LogsBySeverity ∧ host.ReadsOptions ∧ parse "--(2-1)" = .ok tree ∧
      host.request ["-v", "--(2-1)", "--ast"]
        = .run { ast := true, verbose := true } "--(2-1)" ∧
      (host.run none (host.request ["-v", "--(2-1)", "--ast"])).stdout = "--(2 - 1)\n" ∧
      (host.run none (host.request ["-v", "--(2-1)", "--ast"])).stderr = "" ∧
      (host.run none (host.request ["--(2-1)", "-av"])).stdout = "--(2 - 1)\n" ∧
      ∃ x, evaluate "--(2-1)" = .ok x ∧
        (host.run none (host.request ["--(2-1)", "-v"])).stderr
          = "DEBUG calcengine: evaluated expression source=\"--(2-1)\" value="
            ++ Layout.record.write x ++ "\n" := by
  intro host tree
  have hlog : host.LogsBySeverity := Host.standard_logsBySeverity
  have hoptions : host.ReadsOptions := Host.standard_readsOptions
  have hparse : parse "--(2-1)" = .ok tree := by decide +kernel
  rcases readable_text_is_operand hlog hoptions hparse with ⟨x, hx, hruns, halike⟩
  let around : Arrangement :=
    { before := [.short .verbose []]
      after := [.long .ast]
      nodup := by decide
      kinds := by decide }
  let bundled : Arrangement :=
    { before := []
      after := [.short .ast [.verbose]]
      nodup := by decide
      kinds := by decide }
  let behind : Arrangement :=
    { before := []
      after := [.short .verbose []]
      nodup := by decide
      kinds := by decide }
  have haround : around.arguments "--(2-1)" = ["-v", "--(2-1)", "--ast"] := rfl
  have hbundled : bundled.arguments "--(2-1)" = ["--(2-1)", "-av"] := rfl
  have hbehind : behind.arguments "--(2-1)" = ["--(2-1)", "-v"] := rfl
  have hrun := hruns around none
  have hlogged := hruns behind none
  have hsame := halike around bundled none none rfl
  rw [haround] at hrun hsame
  rw [hbundled] at hsame
  rw [hbehind] at hlogged
  rcases hrun with ⟨hrequest, -, hstdout, -, -, hstderr⟩
  rcases hlogged with ⟨-, -, -, -, -, hrecord⟩
  exact ⟨hlog, hoptions, hparse, hrequest, hstdout, hstderr, hsame.1.symm.trans hstdout, x, hx,
    hrecord⟩

end Reckoner
