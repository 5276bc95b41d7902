import CSharpActions.CommandLine.Run
import CSharpActions.Proofs.FileTree.Entry

/-!
# Reading a command line

The command line that applies an action is read as the command with its path, its three numbers and
its flag. It is refused if one of the numbers has too many digits.
-/
namespace CSharpActions.CommandLine

/-! ## Options and arguments in turn -/

variable {specs : List OptionSpec} {interspersed : Bool} {arg : Text} {rest : List Text}

theorem parse_option (arg : Text) (rest : List Text) (t : Taken) {p : Parsed} (ha : arg ≠ "--".text)
    (hd : (arg.head? = some '-' && 1 < arg.length) = true) (ht : dashed specs arg rest = .ok t)
    (hp : parse specs interspersed t.rest = .ok p) :
    parse specs interspersed (arg :: rest) = .ok { p with options := t.options ++ p.options } := by
  rw [parse, if_neg ha, if_pos hd]
  split
  · rename_i heq
    rw [ht] at heq
    simp at heq
  · rename_i u heq
    obtain rfl := Except.ok.inj (ht.symm.trans heq)
    rw [hp]
    rfl

/-- What does not begin with a dash is no option. -/
theorem not_dashed (ha : arg.head? ≠ some (.char '-')) :
    arg ≠ "--".text ∧ ¬ (arg.head? = some '-' && 1 < arg.length) = true := by
  refine ⟨?_, ?_⟩
  · rintro rfl
    exact ha rfl
  · rw [Bool.and_eq_true, decide_eq_true_iff]
    exact fun h => ha h.1

theorem parse_argument {p : Parsed} (ha : arg.head? ≠ some (.char '-'))
    (hp : parse specs true rest = .ok p) :
    parse specs true (arg :: rest) = .ok { p with arguments := arg :: p.arguments } := by
  obtain ⟨hne, hdash⟩ := not_dashed ha
  rw [parse, if_neg hne, if_neg hdash, if_pos rfl, hp]
  rfl

theorem parse_command (ha : arg.head? ≠ some (.char '-')) :
    parse specs false (arg :: rest) = .ok { arguments := arg :: rest } := by
  obtain ⟨hne, hdash⟩ := not_dashed ha
  rw [parse, if_neg hne, if_neg hdash, if_neg Bool.false_ne_true]

theorem forM_cons_eq_error {α ε : Type} {f : α → Except ε Unit} {x : α} {e : ε}
    (h : f x = .error e) (l : List α) : (x :: l).forM f = .error e := by
  have hcons : (x :: l).forM f = (f x >>= fun _ => l.forM f) := rfl
  rw [hcons, h]
  rfl

theorem forM_eq_ok {α ε : Type} {f : α → Except ε Unit} {l : List α} (h : ∀ x ∈ l, f x = .ok ()) :
    l.forM f = .ok () := by
  induction l with
  | nil => rfl
  | cons x l ih =>
    have hcons : (x :: l).forM f = (f x >>= fun _ => l.forM f) := rfl
    rw [hcons, h x List.mem_cons_self]
    exact ih fun y hy => h y (List.mem_cons_of_mem x hy)

/-! ## Applying an action -/

def indexOption : OptionSpec := { names := ["--index", "-n"], kind := .integer }

def dryRunOption : OptionSpec := flagOption ["--dry-run"]

/-- The arguments of the command that applies an action by its number. -/
def applyArguments (dryRun : Bool) (path line column index : Text) : List Text :=
  path :: "--line".text :: line :: "--column".text :: column :: "--index".text :: index ::
    if dryRun then ["--dry-run".text] else []

/-- What is read from these arguments. -/
def applyParsed (dryRun : Bool) (path line column index : Text) : Parsed where
  options := (lineOption, [line]) :: (columnOption, [column]) :: (indexOption, [index]) ::
    if dryRun then [(dryRunOption, [])] else []
  arguments := [path]

variable {w : Workspace} {path line column index : Text}

theorem parse_apply (dryRun : Bool) (hp : path.head? ≠ some (.char '-'))
    (line column index : Text) :
    parse (applySpec.options ++ [helpOption]) true (applyArguments dryRun path line column index) =
      .ok (applyParsed dryRun path line column index) := by
  have hnil : parse (applySpec.options ++ [helpOption]) true [] = .ok {} := by rw [parse]
  have hflag : parse (applySpec.options ++ [helpOption]) true
      (if dryRun then ["--dry-run".text] else []) =
        .ok { options := if dryRun then [(dryRunOption, [])] else [] } := by
    cases dryRun with
    | false => exact hnil
    | true =>
      exact parse_option "--dry-run" [] ⟨[(dryRunOption, [])], []⟩ (by decide) (by decide) rfl hnil
  have hindex := parse_option "--index" (index :: _) ⟨[(indexOption, [index])], _⟩ (by decide)
    (by decide) rfl hflag
  have hcolumn := parse_option "--column" (column :: _) ⟨[(columnOption, [column])], _⟩ (by decide)
    (by decide) rfl hindex
  have hline := parse_option "--line" (line :: _) ⟨[(lineOption, [line])], _⟩ (by decide)
    (by decide) rfl hcolumn
  exact parse_argument hp hline

/-- A value that passes as an integer. -/
def IsNumeral (w : Workspace) (value : Text) : Prop :=
  ∀ hint, ValueKind.integer.check w hint value = .ok ()

theorem isNumeral_ofInt {n : Int} (h : Text.Readable n) (w : Workspace) :
    IsNumeral w (Text.ofInt n) := by
  intro hint
  simp [ValueKind.check, ValueKind.isPath, ValueKind.objection?, Text.readInt_ofInt_eq_ok h,
    Except.toBool]

theorem help_apply (dryRun : Bool) (path line column index : Text) :
    (applyParsed dryRun path line column index).flag "--help" = false := by
  cases dryRun <;> rfl

theorem occurring_apply (dryRun : Bool) (path line column index : Text) :
    (applyParsed dryRun path line column index).occurring =
      lineOption :: columnOption :: indexOption :: if dryRun then [dryRunOption] else [] := by
  cases dryRun <;> rfl

theorem checkValues_apply (dryRun : Bool) (hl : IsNumeral w line)
    (hc : IsNumeral w column) (hi : IsNumeral w index) :
    CommandSpec.checkValues w (applyParsed dryRun path line column index) = .ok () := by
  apply forM_eq_ok
  rw [occurring_apply]
  simp only [List.forall_mem_cons]
  refine ⟨?_, ?_, ?_, ?_⟩
  · apply forM_eq_ok
    intro v hv
    obtain rfl : v = line := by cases dryRun <;> exact List.mem_singleton.mp hv
    exact hl _
  · apply forM_eq_ok
    intro v hv
    obtain rfl : v = column := by cases dryRun <;> exact List.mem_singleton.mp hv
    exact hc _
  · apply forM_eq_ok
    intro v hv
    obtain rfl : v = index := by cases dryRun <;> exact List.mem_singleton.mp hv
    exact hi _
  · cases dryRun with
    | false => simp
    | true => exact List.forall_mem_singleton.mpr rfl

theorem checkArgument_apply (w : Workspace) (dryRun : Bool) (path line column index : Text) :
    applySpec.checkArgument w (applyParsed dryRun path line column index) =
      ValueKind.path.check w (UsageError.hint ["FILE"]) path := rfl

/-- A path that is asked for, and does not lead to what cannot be read, is taken. -/
theorem check_path (hn : FileTree.refusal? path = none) (hu : w.isUnreadable path = false)
    (hint : Text) : ValueKind.path.check w hint path = .ok () := by
  simp [ValueKind.check, ValueKind.isPath, ValueKind.objection?, hn, hu]

theorem read_apply (dryRun : Bool) (hp : path.head? ≠ some (.char '-'))
    (hn : FileTree.refusal? path = none) (hu : w.isUnreadable path = false)
    (hl : IsNumeral w line) (hc : IsNumeral w column)
    (hi : IsNumeral w index) :
    applySpec.read w (applyArguments dryRun path line column index) =
      .ok (applyParsed dryRun path line column index) := by
  have hrequired : applySpec.checkRequired (applyParsed dryRun path line column index) =
      .ok () := by
    cases dryRun <;> rfl
  have hsurplus : applySpec.checkSurplus (applyParsed dryRun path line column index) =
      .ok () := by
    cases dryRun <;> rfl
  rw [CommandSpec.read, parse_apply dryRun hp]
  dsimp only
  rw [help_apply, checkValues_apply dryRun hl hc hi, checkArgument_apply,
    check_path hn hu, hrequired, hsurplus]
  rfl

theorem int?_apply {n : Int} {p : Parsed} {name : Text} (h : Text.Readable n)
    (hp : p.value? name = some (Text.ofInt n)) : p.int? name = some n := by
  rw [Parsed.int?, hp, Option.bind_some, Text.readInt_ofInt_eq_ok h]
  rfl

theorem command_apply (dryRun : Bool) (path : Text) {line column index : Int}
    (hl : Text.Readable line) (hc : Text.Readable column) (hi : Text.Readable index) :
    applySpec.command (applyParsed dryRun path (Text.ofInt line) (Text.ofInt column)
      (Text.ofInt index)) = .ok (.apply ⟨path, line, column, none⟩ (.index index) dryRun true) := by
  generalize hp : applyParsed dryRun path (Text.ofInt line) (Text.ofInt column)
    (Text.ofInt index) = p
  have hline : p.int? "--line" = some line := int?_apply hl (by subst hp; cases dryRun <;> rfl)
  have hcolumn : p.int? "--column" = some column :=
    int?_apply hc (by subst hp; cases dryRun <;> rfl)
  have hindex : p.int? "--index" = some index := int?_apply hi (by subst hp; cases dryRun <;> rfl)
  have htab : p.int? "--tab-size" = none := by subst hp; cases dryRun <;> rfl
  have htitle : p.value? "--title" = none := by subst hp; cases dryRun <;> rfl
  have hhelp : p.flag "--help" = false := by subst hp; cases dryRun <;> rfl
  have hdry : p.flag "--dry-run" = dryRun := by subst hp; cases dryRun <;> rfl
  have hlayout : p.flag "--no-reformat" = false := by subst hp; cases dryRun <;> rfl
  have hargument : p.argument = path := by subst hp; rfl
  have hne : applySpec ≠ actionsSpec := by decide
  rw [CommandSpec.command, hhelp, if_neg Bool.false_ne_true, if_neg hne, if_pos rfl,
    Parsed.choice, hindex, htitle, hdry, hlayout, Parsed.target, hargument, hline, hcolumn, htab]
  rfl

/-- The command line that applies an action. -/
def applyLine (json dryRun : Bool) (path : Text) (line column index : Int) : List Text :=
  (if json then ["--json".text] else []) ++
    "apply".text :: applyArguments dryRun path (Text.ofInt line) (Text.ofInt column)
      (Text.ofInt index)

theorem parse_applyLine (json : Bool) (args : List Text) :
    parse globalOptions false ((if json then ["--json".text] else []) ++ "apply".text :: args) =
      .ok { options := if json then [(flagOption ["--json"], [])] else []
            arguments := "apply".text :: args } := by
  have hcommand : parse globalOptions false ("apply".text :: args) =
      .ok { arguments := "apply".text :: args } := parse_command (by decide)
  cases json with
  | false => exact hcommand
  | true =>
    exact parse_option "--json" _ ⟨[(flagOption ["--json"], [])], _⟩ (by decide) (by decide) rfl
      hcommand

/-- What the options in front of the command leave to it. -/
theorem invocation_apply (json : Bool) (args : List Text) :
    Invocation.read w ((if json then ["--json".text] else []) ++ "apply".text :: args) =
      (namedCommand w "apply" args).map fun command => { json, command } := by
  rw [Invocation.read, parse_applyLine]
  cases json <;> rfl

theorem find_apply : commandSpecs.find? (fun c => c.name = "apply".text) = some applySpec := by rfl

theorem invocation_applyLine_of_error {json dryRun : Bool} {line column index : Int}
    {e : CommandError}
    (h : applySpec.read w (applyArguments dryRun path (Text.ofInt line) (Text.ofInt column)
      (Text.ofInt index)) = .error e) :
    Invocation.read w (applyLine json dryRun path line column index) = .error e := by
  rw [applyLine, invocation_apply, namedCommand, find_apply]
  dsimp only
  rw [h]
  rfl

/-- The command line is read as the command with its numbers. -/
theorem invocation_applyLine (json dryRun : Bool) (hp : path.head? ≠ some (.char '-'))
    (hn : FileTree.refusal? path = none) (hu : w.isUnreadable path = false)
    {line column index : Int} (hl : Text.Readable line) (hc : Text.Readable column)
    (hi : Text.Readable index) :
    Invocation.read w (applyLine json dryRun path line column index) =
      .ok { json, command := .apply ⟨path, line, column, none⟩ (.index index) dryRun true } := by
  have hread := read_apply dryRun hp hn hu (isNumeral_ofInt hl w) (isNumeral_ofInt hc w)
    (isNumeral_ofInt hi w)
  rw [applyLine, invocation_apply, namedCommand, find_apply]
  dsimp only
  rw [hread]
  dsimp only
  rw [command_apply dryRun path hl hc hi]
  rfl

/-- A line with too many digits is refused before the path is looked at. -/
theorem invocation_applyLine_error (json dryRun : Bool) {path : Text}
    (hp : path.head? ≠ some (.char '-')) {line : Int} (column index : Int)
    (hl : ¬ Text.Readable line) :
    ∃ message, Invocation.read w (applyLine json dryRun path line column index) =
      .error (.usage (.invalidValue (UsageError.hint lineOption.names) message)) := by
  have hcheck : ∀ hint, ∃ message, ValueKind.integer.check w hint (Text.ofInt line) =
      .error (.usage (.invalidValue hint message)) := by
    intro hint
    simp [ValueKind.check, ValueKind.isPath, ValueKind.objection?, Text.toBool_readInt_ofInt hl]
  obtain ⟨message, hm⟩ := hcheck (UsageError.hint lineOption.names)
  have hvalues : CommandSpec.checkValues w (applyParsed dryRun path (Text.ofInt line)
      (Text.ofInt column) (Text.ofInt index)) =
        .error (.usage (.invalidValue (UsageError.hint lineOption.names) message)) := by
    rw [CommandSpec.checkValues, occurring_apply]
    apply forM_cons_eq_error
    cases dryRun <;> exact forM_cons_eq_error hm []
  refine ⟨message, invocation_applyLine_of_error ?_⟩
  rw [CommandSpec.read, parse_apply dryRun hp]
  dsimp only
  rw [help_apply, hvalues]
  rfl

/-- A path that is not taken is refused after the numbers. -/
theorem invocation_applyLine_path (json dryRun : Bool) (hp : path.head? ≠ some (.char '-'))
    {line column index : Int} (hl : Text.Readable line) (hc : Text.Readable column)
    (hi : Text.Readable index) {e : CommandError}
    (h : ValueKind.path.check w (UsageError.hint ["FILE"]) path = .error e) :
    Invocation.read w (applyLine json dryRun path line column index) = .error e := by
  have hvalues : CommandSpec.checkValues w (applyParsed dryRun path (Text.ofInt line)
      (Text.ofInt column) (Text.ofInt index)) = .ok () :=
    checkValues_apply dryRun (isNumeral_ofInt hl w) (isNumeral_ofInt hc w) (isNumeral_ofInt hi w)
  apply invocation_applyLine_of_error
  rw [CommandSpec.read, parse_apply dryRun hp]
  dsimp only
  rw [help_apply, hvalues, checkArgument_apply, h]
  rfl

/-- What has to be known of a reader of command lines: the command that applies an action is read
with its path and its numbers, if the path can be asked for and does not lead to what cannot be
read, and the numbers do not have too many digits. -/
structure Reader.Documented (reader : Reader) : Prop where
  apply : ∀ (w : Workspace) (json dryRun : Bool) (path : Text) (line column index : Int),
    path.head? ≠ some (.char '-') → FileTree.refusal? path = none → w.isUnreadable path = false →
    Text.Readable line → Text.Readable column → Text.Readable index →
    reader w (applyLine json dryRun path line column index) =
      .ok { json, command := .apply ⟨path, line, column, none⟩ (.index index) dryRun true }

theorem documented_read : Reader.Documented Invocation.read :=
  ⟨fun _ json dryRun _ _ _ _ hp hn hu hl hc hi =>
    invocation_applyLine json dryRun hp hn hu hl hc hi⟩

end CSharpActions.CommandLine
