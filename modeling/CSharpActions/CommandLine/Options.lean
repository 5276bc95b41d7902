import CSharpActions.CommandLine.Error
import CSharpActions.Diff.Matching

/-!
# Options and arguments

Options may stand anywhere between arguments; two dashes end them. A long option takes its value
after an equals sign or from the next argument, a short one from the rest of its word or from the
next argument. Of several values the last counts.
-/
namespace CSharpActions.CommandLine

/-- What a value has to be. -/
inductive ValueKind where
  | text
  | integer
  /-- A path that does not lead to what cannot be read. -/
  | path
  /-- Such a path that does not lead to a file either. -/
  | directory
  | choice (words : List Text)
deriving DecidableEq, Repr

/-- Why a value is not of a kind. -/
def ValueKind.objection? (w : Workspace) (value : Text) : ValueKind → Option Text
  | .text => none
  | .integer =>
    if (Text.readInt value).toBool then none
    else some (Text.quoted value ++ " is not a valid integer.")
  | .path =>
    if w.isUnreadable value then some ("Path " ++ Text.quoted value ++ " is not readable.")
    else none
  | .directory =>
    if w.tree.isFile w.cwd value then some ("Directory " ++ Text.quoted value ++ " is a file.")
    else if w.isUnreadable value then
      some ("Directory " ++ Text.quoted value ++ " is not readable.")
    else none
  | .choice words =>
    if words.contains value then none
    else
      some (Text.quoted value ++ " is not one of " ++
        List.intercalate ", ".text (words.map Text.quoted) ++ ".")

def ValueKind.isPath : ValueKind → Bool
  | .path => true
  | .directory => true
  | _ => false

/-- Checks a value that is given under the hint. A path that is refused stops the run. -/
def ValueKind.check (w : Workspace) (hint : Text) (kind : ValueKind) (value : Text) :
    Except CommandError Unit :=
  match if kind.isPath then FileTree.refusal? value else none with
  | some refusal => .error (.file ⟨refusal, some value⟩)
  | none =>
    match kind.objection? w value with
    | some message => .error (.usage (.invalidValue hint message))
    | none => .ok ()

structure OptionSpec where
  /-- All names, as they are declared. -/
  names : List Text
  /-- The number of values; an option without values is a flag. -/
  arity : Nat := 1
  kind : ValueKind := .text
  required : Bool := false
deriving DecidableEq, Repr

def OptionSpec.longNames (o : OptionSpec) : List Text :=
  o.names.filter fun n => (Text.after? "--" n).isSome

/-- What was read: the options in the order in which they occur, and the remaining arguments. -/
structure Parsed where
  options : List (OptionSpec × List Text) := []
  arguments : List Text := []
deriving DecidableEq, Repr

namespace Parsed

/-- The values of the last occurrence of an option. -/
def values? (p : Parsed) (name : Text) : Option (List Text) :=
  (p.options.reverse.find? fun o => o.1.names.contains name).map (·.2)

def value? (p : Parsed) (name : Text) : Option Text := (p.values? name).bind List.head?

def int? (p : Parsed) (name : Text) : Option Int :=
  (p.value? name).bind fun v => (Text.readInt v).toOption

def flag (p : Parsed) (name : Text) : Bool := (p.values? name).isSome

/-- The options that occur, in the order of their first occurrences. -/
def occurring (p : Parsed) : List OptionSpec := (p.options.map (·.1)).eraseDups

end Parsed

/-- Twice the matched characters are at least six tenths of all characters. -/
def isClose (word candidate : Text) : Bool :=
  6 * (candidate.length + word.length) ≤ 20 * Diff.matched candidate word

/-- Whether the first candidate resembles a word more than the second one, or equally and comes
later in the order of code points. -/
def closer (word a b : Text) : Bool :=
  let left := Diff.matched a word * (b.length + word.length)
  let right := Diff.matched b word * (a.length + word.length)
  right < left || (left == right && Text.le b a)

/-- The three names that resemble a word most, in the order of code points. -/
def suggestions (word : Text) (names : List Text) : List Text :=
  (((names.filter (isClose word)).mergeSort (closer word)).take 3).mergeSort Text.le

/-- Some options with their values, and the arguments that follow them. -/
structure Taken where
  options : List (OptionSpec × List Text)
  rest : List Text
deriving DecidableEq, Repr

/-- Takes the values of an option from the arguments that follow. -/
def takeValues (name : Text) (o : OptionSpec) (rest : List Text) : Except UsageError Taken :=
  if rest.length < o.arity then .error (.missingValue name o.arity)
  else .ok ⟨[(o, rest.take o.arity)], rest.drop o.arity⟩

/-- Reads the letters of a word of short options. -/
def shortOptions (specs : List OptionSpec) (rest : List Text) : Text → Except UsageError Taken
  | [] => .ok ⟨[], rest⟩
  | c :: more =>
    match specs.find? fun o => o.names.contains [.char '-', c] with
    | none => .error (.noSuchOption [.char '-', c] [])
    | some o =>
      if o.arity = 0 then
        (shortOptions specs rest more).map fun t => ⟨(o, []) :: t.options, t.rest⟩
      else takeValues [.char '-', c] o (if more.isEmpty then rest else more :: rest)

/-- Reads an argument that begins with a dash. -/
def dashed (specs : List OptionSpec) (arg : Text) (rest : List Text) : Except UsageError Taken :=
  let name := arg.takeWhile (· ≠ .char '=')
  let explicit : Option Text := (arg.dropWhile (· ≠ .char '=')).tail?
  match specs.find? fun o => o.longNames.contains name with
  | some o =>
    if o.arity = 0 then
      if explicit.isSome then .error (.unexpectedValue name) else .ok ⟨[(o, [])], rest⟩
    else takeValues name o (explicit.toList ++ rest)
  | none =>
    if (Text.after? "--" arg).isSome then
      .error (.noSuchOption name (suggestions name (specs.flatMap (·.longNames))))
    else shortOptions specs rest (arg.drop 1)

theorem takeValues_length {name : Text} {o : OptionSpec} {rest : List Text} {t : Taken}
    (h : takeValues name o rest = .ok t) : t.rest.length = rest.length - o.arity := by
  unfold takeValues at h
  split at h
  · simp at h
  · cases h; simp

theorem shortOptions_length_le {specs : List OptionSpec} {rest : List Text} {word : Text}
    {t : Taken} (h : shortOptions specs rest word = .ok t) : t.rest.length ≤ rest.length := by
  induction word generalizing t with
  | nil => cases h; simp
  | cons c more ih =>
    unfold shortOptions at h
    split at h
    · simp at h
    · split at h
      · cases hs : shortOptions specs rest more with
        | error e => simp [hs, Except.map] at h
        | ok u =>
          simp only [hs, Except.map, Except.ok.injEq] at h
          subst h
          have := ih hs
          simpa using this
      · have := takeValues_length h
        split at this
        · omega
        · simp only [List.length_cons] at this; omega

/-- Options never use up arguments in front of them. -/
theorem dashed_length_le {specs : List OptionSpec} {arg : Text} {rest : List Text} {t : Taken}
    (h : dashed specs arg rest = .ok t) : t.rest.length ≤ rest.length := by
  unfold dashed at h
  dsimp only at h
  split at h
  · split at h
    · split at h
      · simp at h
      · cases h; simp
    · have := takeValues_length h
      rw [List.length_append] at this
      have : (Option.toList (arg.dropWhile (· ≠ .char '=')).tail?).length ≤ 1 := by
        cases (arg.dropWhile (· ≠ .char '=')).tail? <;> simp
      omega
  · split at h
    · simp at h
    · exact shortOptions_length_le h

/-- Reads the arguments; unless options may follow arguments, the first argument ends them. -/
def parse (specs : List OptionSpec) (interspersed : Bool) : List Text → Except UsageError Parsed
  | [] => .ok {}
  | arg :: rest =>
    if arg = "--".text then .ok { arguments := rest }
    else if arg.head? = some '-' && 1 < arg.length then
      match _h : dashed specs arg rest with
      | .error e => .error e
      | .ok t =>
        (parse specs interspersed t.rest).map fun p => { p with options := t.options ++ p.options }
    else if interspersed then
      (parse specs interspersed rest).map fun p => { p with arguments := arg :: p.arguments }
    else .ok { arguments := arg :: rest }
termination_by args => args.length
decreasing_by
  · have := dashed_length_le _h
    simp only [List.length_cons]; omega
  · simp

/-- The options and arguments that a command takes. -/
structure CommandSpec where
  name : Text
  options : List OptionSpec := []
  /-- The name of its one argument, a path, if it has any, and whether that has to be given. -/
  argument : Option (Text × Bool) := none
deriving DecidableEq, Repr

/-- The option that every command has. -/
def helpOption : OptionSpec := { names := ["--help"], arity := 0 }

namespace CommandSpec

/-- Checks the values of the options, in the order of their first occurrences. -/
def checkValues (w : Workspace) (p : Parsed) : Except CommandError Unit :=
  p.occurring.forM fun o =>
    ((p.values? (o.names.headD [])).getD []).forM (o.kind.check w (UsageError.hint o.names))

def checkArgument (c : CommandSpec) (w : Workspace) (p : Parsed) : Except CommandError Unit :=
  match c.argument, p.arguments with
  | some (name, true), [] => .error (.usage (.missingArgument name))
  | some (name, _), value :: _ =>
    ValueKind.path.check w (UsageError.hint [name]) value
  | _, _ => .ok ()

def checkRequired (c : CommandSpec) (p : Parsed) : Except CommandError Unit :=
  match c.options.find? fun o => o.required && !p.occurring.contains o with
  | some o => .error (.usage (.missingOption o.names))
  | none => .ok ()

/-- The arguments beyond the one that the command takes. -/
def surplus (c : CommandSpec) (p : Parsed) : List Text :=
  p.arguments.drop (if c.argument.isSome then 1 else 0)

def checkSurplus (c : CommandSpec) (p : Parsed) : Except CommandError Unit :=
  if (c.surplus p).isEmpty then .ok () else .error (.usage (.unexpectedArguments (c.surplus p)))

/-- Reads the arguments of a command. Of several mistakes, one in the form of the options comes
first, then a wrong value, a missing argument, a missing option and a surplus argument. -/
def read (c : CommandSpec) (w : Workspace) (args : List Text) : Except CommandError Parsed :=
  match parse (c.options ++ [helpOption]) true args with
  | .error e => .error (.usage e)
  | .ok p =>
    if p.flag "--help" then .ok p
    else
      match checkValues w p, c.checkArgument w p, c.checkRequired p, c.checkSurplus p with
      | .error e, _, _, _ => .error e
      | _, .error e, _, _ => .error e
      | _, _, .error e, _ => .error e
      | _, _, _, .error e => .error e
      | _, _, _, _ => .ok p

end CommandSpec

end CSharpActions.CommandLine
