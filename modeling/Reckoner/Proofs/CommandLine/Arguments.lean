import Reckoner.CommandLine.Report
import Mathlib.Data.List.Nodup

/-!
# Readers of Arguments

What is expected of a reader of arguments, and a reader that is as expected.

The program does not read its arguments itself, so nothing about the arguments is true of it
unless something is known of the reader. `Host.ReadsOptions` is what is needed. A text alone
is the operand if it is not made of options altogether, also if it begins with minus signs. And
options may be put before or behind what is read already, as long as each is given once. Of
what happens in all other cases nothing is said.

The reader of the standard host is no more than an example of it, which shows that the
expectations can be met. It reads from left to right with the options that are in force as its
state, and what it does to them is to add some that it accepts (`enableAll_eq_ok`). Which ones
these are does not depend on the state (`Request.Adds`, `exists_adds`), and adding is
commutative. This is why it makes no difference where options stand.

## Main definitions

* `Flag.letter`, `Flag.name`: The names of an option.
* `Switch`: An argument that gives options.
* `GivesOptions`: The texts that are made of options.
* `Options.inForce`: Whether an option is in force.
* `Options.adding`: Options with others in force besides.
* `Options.Accepts`: Options that may be given besides.
* `Host.ReadsOptions`: What is expected of the reader.
* `Argument.IsOperand`: The arguments that are taken for the operand.
* `Request.Adds`: Arguments that add options and give the operand.

## Theorems

* `accepts_append`: Options are accepted together if they are so one behind the other.
* `enable_eq_ok`, `enableAll_eq_ok`: Which options are put in force.
* `isOperand_of_not_givesOptions`: What is not made of options is the operand.
* `ofText_spelling`: The arguments that give options are read as them.
* `exists_adds`: What is made of arguments that are understood.
* `standard_readsOptions`: The standard host reads options as expected.
-/

namespace Reckoner

namespace Flag

/-- The short name of an option. -/
def letter : Flag → Char
  | file => 'f'
  | ast => 'a'
  | verbose => 'v'
  | help => 'h'
  | version => 'V'

/-- The long name of an option. -/
def name : Flag → List Char
  | file => "file".toList
  | ast => "ast".toList
  | verbose => "verbose".toList
  | help => "help".toList
  | version => "version".toList

theorem ofLetter?_letter (flag : Flag) : ofLetter? flag.letter = some flag := by
  cases flag with
  | _ => rfl

theorem ofName?_name (flag : Flag) : ofName? flag.name = some flag := by
  cases flag with
  | _ => rfl

theorem eq_letter_of_ofLetter? {c : Char} {flag : Flag} (h : ofLetter? c = some flag) :
    c = flag.letter := by
  unfold ofLetter? at h
  split at h
  all_goals cases h
  all_goals rfl

theorem eq_name_of_ofName? {name : List Char} {flag : Flag} (h : ofName? name = some flag) :
    name = flag.name := by
  unfold ofName? at h
  split_ifs at h with hfile hast hverbose hhelp hversion
  · cases h
    exact hfile
  · cases h
    exact hast
  · cases h
    exact hverbose
  · cases h
    exact hhelp
  · cases h
    exact hversion

-- No long name holds the sign behind which a value would stand.
theorem takeWhile_name (flag : Flag) : flag.name.takeWhile (· != '=') = flag.name := by
  cases flag with
  | _ => rfl

theorem name_ne_nil (flag : Flag) : flag.name ≠ [] := by
  cases flag with
  | _ => exact List.cons_ne_nil _ _

end Flag

/-- An argument that gives options: one by its long name, or some by their short names. -/
inductive Switch where
  | long (flag : Flag)
  | short (first : Flag) (others : List Flag)

namespace Switch

/-- The options that an argument gives. -/
def flags : Switch → List Flag
  | long flag => [flag]
  | short first others => first :: others

/-- The characters of an argument. -/
def spelling : Switch → List Char
  | long flag => '-' :: '-' :: flag.name
  | short first others => '-' :: (first :: others).map Flag.letter

/-- The argument itself. -/
def text (switch : Switch) : String :=
  String.ofList switch.spelling

/-- The options that several arguments give. -/
def given (switches : List Switch) : List Flag :=
  switches.flatMap flags

-- No such argument is the marker behind which nothing is an option.
theorem text_ne_marker (switch : Switch) : switch.text ≠ "--" := by
  intro h
  have hspelling : switch.spelling = ['-', '-'] := by
    rw [← String.toList_ofList (l := switch.spelling)]
    exact congrArg String.toList h
  cases switch with
  | long flag =>
      rw [spelling, List.cons.injEq, List.cons.injEq] at hspelling
      exact flag.name_ne_nil hspelling.2.2
  | short first others =>
      rw [spelling, List.map_cons, List.cons.injEq, List.cons.injEq] at hspelling
      cases first with
      | _ => exact absurd hspelling.2.1 (by decide)

end Switch

/-- The texts that are made of options altogether: the marker behind which there are none, a long
    option that is known, with a value or without, and short options that are known. -/
inductive GivesOptions : List Char → Prop where
  | marker : GivesOptions ['-', '-']
  | long (flag : Flag) : GivesOptions ('-' :: '-' :: flag.name)
  | valued (flag : Flag) (value : List Char) :
      GivesOptions ('-' :: '-' :: (flag.name ++ '=' :: value))
  | short (first : Flag) (others : List Flag) :
      GivesOptions ('-' :: (first :: others).map Flag.letter)

namespace Options

/-- Whether an option is in force. Those that end the reading never are. -/
def inForce (options : Options) : Flag → Bool
  | .file => options.file
  | .ast => options.ast
  | .verbose => options.verbose
  | .help | .version => false

/-- These options with others in force besides. -/
def adding (options : Options) (flags : List Flag) : Options where
  file := options.file || flags.contains .file
  ast := options.ast || flags.contains .ast
  verbose := options.verbose || flags.contains .verbose

/-- Options that may be given besides those in force: each is given once and is not in force, and
    none asks for help or for the version. -/
structure Accepts (options : Options) (flags : List Flag) : Prop where
  nodup : flags.Nodup
  settable : ∀ flag ∈ flags, flag ≠ .help ∧ flag ≠ .version
  fresh : ∀ flag ∈ flags, options.inForce flag = false

end Options

/-- What is expected of the reader of arguments. -/
structure Host.ReadsOptions (host : Host) : Prop where
  /-- A text that is not made of options altogether is the operand, whatever it begins with. -/
  operand : ∀ text : String, ¬GivesOptions text.toList → host.request [text] = .run {} text
  /-- Options may stand before what is read. -/
  before : ∀ (switch : Switch) (arguments : List String) (options : Options) (operand : String),
    host.request arguments = .run options operand → options.Accepts switch.flags →
      host.request (switch.text :: arguments) = .run (options.adding switch.flags) operand
  /-- Options may stand behind what is read, if nothing says that there are none. -/
  behind : ∀ (switch : Switch) (arguments : List String) (options : Options) (operand : String),
    host.request arguments = .run options operand → options.Accepts switch.flags →
      "--" ∉ arguments →
        host.request (arguments ++ [switch.text]) = .run (options.adding switch.flags) operand

namespace Options

variable (options : Options)

theorem adding_nil : options.adding [] = options := by
  simp [adding]

theorem adding_append (a b : List Flag) :
    options.adding (a ++ b) = (options.adding a).adding b := by
  simp [adding, Bool.or_assoc]

-- It makes no difference what is added first.
theorem adding_comm (a b : List Flag) :
    (options.adding a).adding b = (options.adding b).adding a := by
  simp only [adding, mk.injEq]
  exact ⟨Bool.or_right_comm _ _ _, Bool.or_right_comm _ _ _, Bool.or_right_comm _ _ _⟩

-- Whether other options are in force does not change.
theorem inForce_adding {flag : Flag} {flags : List Flag} (h : flag ∉ flags) :
    (options.adding flags).inForce flag = options.inForce flag := by
  cases flag with
  | _ => simp [adding, inForce, h]

-- Those that are added are in force.
theorem inForce_adding_of_mem {flag : Flag} {flags : List Flag}
    (hsettable : flag ≠ .help ∧ flag ≠ .version) (h : flag ∈ flags) :
    (options.adding flags).inForce flag = true := by
  cases flag with
  | help => exact absurd rfl hsettable.1
  | version => exact absurd rfl hsettable.2
  | _ => simp [adding, inForce, h]

theorem accepts_nil : options.Accepts [] :=
  ⟨List.nodup_nil, fun _ h => absurd h List.not_mem_nil, fun _ h => absurd h List.not_mem_nil⟩

/-- Options are accepted together if they are accepted one part behind the other. -/
theorem accepts_append {a b : List Flag} :
    options.Accepts (a ++ b) ↔ options.Accepts a ∧ (options.adding a).Accepts b := by
  constructor
  · intro h
    rcases List.nodup_append'.mp h.nodup with ⟨ha, hb, hdisjoint⟩
    refine ⟨⟨ha, fun flag hflag => h.settable flag (List.mem_append_left b hflag),
        fun flag hflag => h.fresh flag (List.mem_append_left b hflag)⟩,
      ⟨hb, fun flag hflag => h.settable flag (List.mem_append_right a hflag), fun flag hflag => ?_⟩⟩
    rw [options.inForce_adding fun hmem => hdisjoint hmem hflag]
    exact h.fresh flag (List.mem_append_right a hflag)
  · rintro ⟨ha, hb⟩
    -- What is in force behind the first part is not accepted again.
    have hdisjoint : ∀ flag ∈ b, flag ∉ a := by
      intro flag hflag hmem
      have hfresh := hb.fresh flag hflag
      rw [options.inForce_adding_of_mem (hb.settable flag hflag) hmem] at hfresh
      cases hfresh
    refine ⟨List.nodup_append'.mpr ⟨ha.nodup, hb.nodup, fun flag hmem hflag =>
      hdisjoint flag hflag hmem⟩, fun flag hflag => ?_, fun flag hflag => ?_⟩
    · rcases List.mem_append.mp hflag with hflag | hflag
      · exact ha.settable flag hflag
      · exact hb.settable flag hflag
    · rcases List.mem_append.mp hflag with hflag | hflag
      · exact ha.fresh flag hflag
      · rw [← options.inForce_adding (hdisjoint flag hflag)]
        exact hb.fresh flag hflag

-- They are also accepted in the other order.
theorem Accepts.swap {options : Options} {a b : List Flag} (h : options.Accepts (a ++ b)) :
    options.Accepts (b ++ a) where
  nodup := List.nodup_append_comm.mp h.nodup
  settable flag hflag := h.settable flag (List.mem_append.mpr (List.mem_append.mp hflag).symm)
  fresh flag hflag := h.fresh flag (List.mem_append.mpr (List.mem_append.mp hflag).symm)

theorem enable_eq_ok {options options' : Options} {flag : Flag} :
    options.enable flag = .ok options'
      ↔ options.Accepts [flag] ∧ options' = options.adding [flag] := by
  have haccepts : options.Accepts [flag]
      ↔ (flag ≠ .help ∧ flag ≠ .version) ∧ options.inForce flag = false := by
    constructor
    · exact fun h => ⟨h.settable flag List.mem_cons_self, h.fresh flag List.mem_cons_self⟩
    · rintro ⟨hsettable, hfresh⟩
      refine ⟨List.nodup_singleton flag, ?_, ?_⟩
      · intro flag' hflag
        rw [List.mem_singleton.mp hflag]
        exact hsettable
      · intro flag' hflag
        rw [List.mem_singleton.mp hflag]
        exact hfresh
  rw [haccepts]
  cases flag with
  | file => cases hforce : options.file with
    | _ => simp [enable, inForce, adding, hforce, eq_comm]
  | ast => cases hforce : options.ast with
    | _ => simp [enable, inForce, adding, hforce, eq_comm]
  | verbose => cases hforce : options.verbose with
    | _ => simp [enable, inForce, adding, hforce, eq_comm]
  | help => simp [enable]
  | version => simp [enable]

/-- Which options are put in force by an argument: those that it names, if all of them are known and
    accepted. -/
theorem enableAll_eq_ok {options options' : Options} {names : List (Option Flag)} :
    options.enableAll names = .ok options'
      ↔ ∃ flags, names = flags.map some ∧ options.Accepts flags ∧
        options' = options.adding flags := by
  induction names generalizing options with
  | nil =>
      rw [enableAll, Except.ok.injEq]
      constructor
      · rintro rfl
        exact ⟨[], rfl, options.accepts_nil, options.adding_nil.symm⟩
      · rintro ⟨flags, hnames, -, rfl⟩
        rw [List.map_eq_nil_iff.mp hnames.symm, options.adding_nil]
  | cons name names ih =>
      cases name with
      | none =>
          rw [enableAll]
          constructor
          · intro h
            cases h
          · rintro ⟨flags, hnames, -⟩
            cases flags with
            | nil => cases hnames
            | cons flag flags => cases hnames
      | some flag =>
          rw [enableAll]
          constructor
          · intro h
            rcases henabled : options.enable flag with request | options₁
            · rw [henabled] at h
              cases h
            · rw [henabled] at h
              rcases enable_eq_ok.mp henabled with ⟨hflag, rfl⟩
              rcases ih.mp h with ⟨flags, rfl, hflags, rfl⟩
              refine ⟨flag :: flags, rfl, ?_, (options.adding_append [flag] flags).symm⟩
              exact options.accepts_append.mpr ⟨hflag, hflags⟩
          · rintro ⟨flags, hnames, haccepts, rfl⟩
            rcases flags with _ | ⟨flag', flags⟩
            · cases hnames
            rw [List.map_cons, List.cons.injEq, Option.some.injEq] at hnames
            rcases hnames with ⟨rfl, rfl⟩
            rcases options.accepts_append.mp (show options.Accepts ([flag] ++ flags) from haccepts)
              with ⟨hflag, hflags⟩
            rw [enable_eq_ok.mpr ⟨hflag, rfl⟩]
            exact ih.mpr ⟨flags, rfl, hflags, options.adding_append [flag] flags⟩

-- Where not all of them are put in force, nothing is run.
theorem enableAll_error_ne_run {options options' : Options} {names : List (Option Flag)}
    {request : Request} {operand : String} (h : options.enableAll names = .error request) :
    request ≠ .run options' operand := by
  induction names generalizing options with
  | nil => cases h
  | cons name names ih =>
      cases name with
      | none =>
          cases h
          exact Request.noConfusion
      | some flag =>
          rw [enableAll] at h
          rcases henabled : options.enable flag with request' | options₁
          · rw [henabled, Except.error.injEq] at h
            subst h
            cases flag with
            | help =>
                cases henabled
                exact Request.noConfusion
            | version =>
                cases henabled
                exact Request.noConfusion
            | _ =>
                simp only [enable] at henabled
                split at henabled
                · cases henabled
                  exact Request.noConfusion
                · cases henabled
          · rw [henabled] at h
            exact ih h

end Options

/-- An argument that is taken for the operand if that is missing: it is in no form of options, or
    not all of the options in it are known. -/
def Argument.IsOperand (argument : List Char) : Prop :=
  ofText argument = .text ∨ ∃ names, ofText argument = .flags names ∧ none ∈ names

namespace Argument

-- Short names that are all known are those of options.
theorem exists_eq_map_letter {letters : List Char}
    (h : none ∉ letters.map Flag.ofLetter?) :
    ∃ flags : List Flag, letters = flags.map Flag.letter := by
  induction letters with
  | nil => exact ⟨[], rfl⟩
  | cons letter letters ih =>
      rw [List.map_cons, List.mem_cons, not_or] at h
      rcases ih h.2 with ⟨flags, rfl⟩
      rcases hletter : Flag.ofLetter? letter with _ | flag
      · exact absurd hletter.symm h.1
      · exact ⟨flag :: flags, by rw [List.map_cons, ← Flag.eq_letter_of_ofLetter? hletter]⟩

/-- What is not made of options is taken for the operand. -/
theorem isOperand_of_not_givesOptions {argument : List Char} (h : ¬GivesOptions argument) :
    IsOperand argument := by
  unfold IsOperand ofText
  split
  · exact absurd .marker h
  · rename_i long hne
    dsimp only
    rcases hname : Flag.ofName? (long.takeWhile (· != '=')) with _ | flag
    · exact Or.inr ⟨_, rfl, List.mem_singleton.mpr rfl⟩
    · have hflag := Flag.eq_name_of_ofName? hname
      have hlong := List.takeWhile_append_dropWhile (p := (· != '=')) (l := long)
      rw [hflag] at hlong
      rcases hbehind : long.dropWhile (· != '=') with _ | ⟨c, value⟩
      · rw [hbehind, List.append_nil] at hlong
        rw [← hlong] at h
        exact absurd (.long flag) h
      · have hc := List.head?_dropWhile_not (· != '=') long
        rw [hbehind] at hc
        have heq : c = '=' := by simpa using hc
        rw [hbehind, heq] at hlong
        rw [← hlong] at h
        exact absurd (.valued flag value) h
  · rename_i letter letters hne hne'
    by_cases hunknown : none ∈ (letter :: letters).map Flag.ofLetter?
    · exact Or.inr ⟨_, rfl, hunknown⟩
    · rcases exists_eq_map_letter hunknown with ⟨flags, hletters⟩
      rcases flags with _ | ⟨first, others⟩
      · cases hletters
      · rw [hletters] at h
        exact absurd (.short first others) h
  · exact Or.inl rfl

/-- An argument that gives options is read as them. -/
theorem ofText_spelling (switch : Switch) :
    ofText switch.spelling = .flags (switch.flags.map some) := by
  cases switch with
  | long flag =>
      have hlong : flag.name.takeWhile (· != '=') = flag.name := flag.takeWhile_name
      have hknown := flag.ofName?_name
      rcases hname : flag.name with _ | ⟨c, rest⟩
      · exact absurd hname flag.name_ne_nil
      · rw [hname] at hlong hknown
        simp only [Switch.spelling, hname, ofText, hlong, hknown, Nat.lt_irrefl, if_false]
        rfl
  | short first others =>
      have hletters : ((first :: others).map Flag.letter).map Flag.ofLetter?
          = (first :: others).map some := by
        rw [List.map_map]
        exact List.map_congr_left fun flag _ => flag.ofLetter?_letter
      cases first with
      | _ => exact congrArg Argument.flags hletters

theorem ofText_text (switch : Switch) :
    ofText switch.text.toList = .flags (switch.flags.map some) := by
  rw [Switch.text, String.toList_ofList, ofText_spelling]

-- Only the marker is read as one.
theorem eq_marker_of_ofText {argument : List Char} (h : ofText argument = .endOfFlags) :
    argument = ['-', '-'] := by
  unfold ofText at h
  split at h
  · rfl
  · dsimp only at h
    split at h
    · cases h
    · split at h
      · cases h
      · cases h
  · cases h
  · cases h

end Argument

namespace Request

variable (options : Options) (rest : List String)

-- The operand is taken down where it stands.
theorem ofRest_operand {text : String} (h : Argument.IsOperand text.toList) :
    ofRest options none (text :: rest) = ofRest options (some text) rest := by
  rcases h with htext | ⟨names, hnames, hunknown⟩
  · simp only [ofRest, htext]
  · have hcontains : names.contains none = true := List.contains_iff_mem.mpr hunknown
    simp only [ofRest, hnames, hcontains, if_true]

-- Options are put in force, whether the operand is there or not, as long as all are known or it is
-- there. Where they cannot be, that is the answer.
theorem ofRest_flags {argument : String} {names : List (Option Flag)} {operand : Option String}
    (hform : Argument.ofText argument.toList = .flags names)
    (hknown : operand = none → none ∉ names) :
    ofRest options operand (argument :: rest)
      = match options.enableAll names with
        | .error request => request
        | .ok options' => ofRest options' operand rest := by
  cases operand with
  | some text =>
      cases henabled : options.enableAll names with
      | _ => simp only [ofRest, hform, henabled]
  | none =>
      have hcontains : names.contains none = false := by
        rw [Bool.eq_false_iff, ne_eq, List.contains_iff_mem]
        exact hknown rfl
      cases henabled : options.enableAll names with
      | _ => simp only [ofRest, hform, hcontains, if_neg Bool.false_ne_true, henabled]

theorem none_not_mem_map_some (flags : List Flag) : none ∉ flags.map some := by
  simp only [List.mem_map, reduceCtorEq, and_false, exists_false, not_false_eq_true]

theorem ofRest_marker {argument : String} {operand : Option String}
    (hform : Argument.ofText argument.toList = .endOfFlags) :
    ofRest options operand (argument :: rest) = ofOperands options operand rest := by
  cases operand with
  | _ => simp only [ofRest, hform]

-- Behind the marker the options in force are those before it.
theorem ofOperands_eq_run {options options' : Options} {operand : Option String}
    {arguments : List String} {text : String}
    (h : ofOperands options operand arguments = .run options' text) :
    options' = options ∧ ∀ other, ofOperands other operand arguments = .run other text := by
  unfold ofOperands at h ⊢
  split at h
  · rw [run.injEq] at h
    rcases h with ⟨rfl, rfl⟩
    exact ⟨rfl, fun _ => rfl⟩
  · rw [run.injEq] at h
    rcases h with ⟨rfl, rfl⟩
    exact ⟨rfl, fun _ => rfl⟩
  · cases h

/-- Arguments that give options and the operand, or options behind an operand that is there. From
    wherever the options are accepted they are added. More arguments may follow if nothing says that
    there are no more options. -/
def Adds (operand : Option String) (arguments : List String) (given : List Flag) (text : String) :
    Prop :=
  ∀ options : Options, options.Accepts given →
    ofRest options operand arguments = run (options.adding given) text ∧
      ("--" ∉ arguments → ∀ more, ofRest options operand (arguments ++ more)
        = ofRest (options.adding given) (some text) more)

namespace Adds

variable {operand : Option String} {argument text : String} {arguments : List String}
  {given : List Flag}

theorem nil (text : String) : Adds (some text) [] [] text := by
  intro options _
  rw [options.adding_nil]
  exact ⟨rfl, fun _ _ => rfl⟩

-- Behind the marker stands the operand, or nothing if it is there.
theorem marker (h : ∀ options, ofOperands options operand arguments = run options text) :
    Adds operand ("--" :: arguments) [] text := by
  intro options _
  rw [options.adding_nil]
  exact ⟨h options, fun hmarker => absurd List.mem_cons_self hmarker⟩

-- The operand stands in front.
theorem operand_cons (hargument : Argument.IsOperand argument.toList)
    (h : Adds (some argument) arguments given text) :
    Adds none (argument :: arguments) given text := by
  intro options haccepts
  rcases h options haccepts with ⟨hread, hmore⟩
  refine ⟨(ofRest_operand options arguments hargument).trans hread, fun hmarker more => ?_⟩
  rw [List.cons_append, ofRest_operand options (arguments ++ more) hargument]
  exact hmore (fun hmem => hmarker (List.mem_cons_of_mem _ hmem)) more

-- Options stand in front.
theorem flags_cons {flags : List Flag}
    (hform : Argument.ofText argument.toList = .flags (flags.map some))
    (h : Adds operand arguments given text) :
    Adds operand (argument :: arguments) (flags ++ given) text := by
  intro options haccepts
  rcases options.accepts_append.mp haccepts with ⟨hflags, hgiven⟩
  rcases h (options.adding flags) hgiven with ⟨hread, hmore⟩
  have henabled : options.enableAll (flags.map some) = .ok (options.adding flags) :=
    Options.enableAll_eq_ok.mpr ⟨flags, rfl, hflags, rfl⟩
  have hstep : ∀ rest, ofRest options operand (argument :: rest)
      = ofRest (options.adding flags) operand rest := by
    intro rest
    rw [ofRest_flags options rest hform fun _ => none_not_mem_map_some flags, henabled]
  rw [options.adding_append]
  refine ⟨(hstep arguments).trans hread, fun hmarker more => ?_⟩
  exact (hstep (arguments ++ more)).trans
    (hmore (fun hmem => hmarker (List.mem_cons_of_mem _ hmem)) more)

end Adds

/-- What is made of arguments that are understood: some options that are accepted are added. -/
theorem exists_adds {options options' : Options} {operand : Option String}
    {arguments : List String} {text : String}
    (h : ofRest options operand arguments = .run options' text) :
    ∃ given, options.Accepts given ∧ options' = options.adding given ∧
      Adds operand arguments given text := by
  induction arguments generalizing options operand with
  | nil =>
      cases operand with
      | none => cases h
      | some text' =>
          cases h
          exact ⟨[], options'.accepts_nil, options'.adding_nil.symm, .nil text⟩
  | cons argument rest ih =>
      -- Reading goes on behind the operand if that stands here.
      have hoperand : Argument.IsOperand argument.toList →
          ofRest options none (argument :: rest) = .run options' text →
          ∃ given, options.Accepts given ∧ options' = options.adding given ∧
            Adds none (argument :: rest) given text := by
        intro hargument h
        rw [ofRest_operand options rest hargument] at h
        rcases ih h with ⟨given, haccepts, heq, hadds⟩
        exact ⟨given, haccepts, heq, hadds.operand_cons hargument⟩
      -- It goes on behind options if they are put in force.
      have hflags : ∀ names, Argument.ofText argument.toList = .flags names →
          (operand = none → none ∉ names) →
          ∃ given, options.Accepts given ∧ options' = options.adding given ∧
            Adds operand (argument :: rest) given text := by
        intro names hform hknown
        rw [ofRest_flags options rest hform hknown] at h
        rcases henabled : options.enableAll names with request | options₁
        · rw [henabled] at h
          exact absurd h (Options.enableAll_error_ne_run henabled)
        · rw [henabled] at h
          rcases Options.enableAll_eq_ok.mp henabled with ⟨flags, rfl, hflags, rfl⟩
          rcases ih h with ⟨given, haccepts, rfl, hadds⟩
          exact ⟨flags ++ given, options.accepts_append.mpr ⟨hflags, haccepts⟩,
            (options.adding_append flags given).symm, hadds.flags_cons hform⟩
      rcases hform : Argument.ofText argument.toList with _ | names | _ | _
      · rw [ofRest_marker options rest hform] at h
        rcases ofOperands_eq_run h with ⟨rfl, hread⟩
        have hargument : argument = "--" :=
          String.toList_injective (Argument.eq_marker_of_ofText hform)
        rw [hargument]
        exact ⟨[], options'.accepts_nil, options'.adding_nil.symm, .marker hread⟩
      · cases operand with
        | some text' => exact hflags names hform nofun
        | none =>
            by_cases hunknown : none ∈ names
            · exact hoperand (Or.inr ⟨names, hform, hunknown⟩) h
            · exact hflags names hform fun _ => hunknown
      · simp only [ofRest, hform] at h
        cases h
      · cases operand with
        | some text' =>
            simp only [ofRest, hform] at h
            cases h
        | none => exact hoperand (Or.inl hform) h

end Request

namespace Host

/-- The standard host reads options as expected. -/
theorem standard_readsOptions : standard.ReadsOptions where
  operand text h :=
    Request.ofRest_operand {} [] (Argument.isOperand_of_not_givesOptions h)
  before switch arguments options operand h haccepts := by
    rcases Request.exists_adds h with ⟨given, hgiven, rfl, hadds⟩
    -- What was given before is accepted behind the new options too.
    have hboth := ((Options.accepts_append {}).mpr ⟨hgiven, haccepts⟩).swap
    have hread := (hadds.flags_cons (Argument.ofText_text switch) {} hboth).1
    rw [Options.adding_append, Options.adding_comm] at hread
    exact hread
  behind switch arguments options operand h haccepts hmarker := by
    rcases Request.exists_adds h with ⟨given, hgiven, rfl, hadds⟩
    have hmore := (hadds {} hgiven).2 hmarker [switch.text]
    have hlast := (Request.Adds.nil operand).flags_cons (Argument.ofText_text switch)
    rw [List.append_nil] at hlast
    exact hmore.trans (hlast _ haccepts).1

end Host

end Reckoner
