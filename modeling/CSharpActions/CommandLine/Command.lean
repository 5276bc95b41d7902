import CSharpActions.Action.Select
import CSharpActions.CommandLine.Options

/-!
# Commands

What the command line can ask for. A faulty command line is refused before any file is read; only
what the paths lead to is looked up.
-/
namespace CSharpActions.CommandLine

/-- A place in a source file, counted from one, and the tab size to use there. -/
structure Target where
  file : Text
  line : Int
  column : Int
  tabSize : Option Int := none
deriving DecidableEq, Repr

inductive ConfigRequest where
  | view
  | set (name value : Text)
  | unset (name : Text)
deriving DecidableEq, Repr

inductive Command where
  | help (of : Option CommandSpec)
  | version
  | actions (target : Target)
  | apply (target : Target) (choice : Action.Choice) (dryRun reformat : Bool)
  | namespaceOf (path : Text) (root : Option Text)
  | references (path : Text)
  | config (root : Text) (request : ConfigRequest)
  | serve
deriving DecidableEq, Repr

/-- A command, and whether it answers in JSON. -/
structure Invocation where
  json : Bool := false
  command : Command
deriving DecidableEq, Repr

def flagOption (names : List Text) : OptionSpec := { names, arity := 0 }

def versionOption : OptionSpec := flagOption ["--version"]

/-- The options in front of the command. -/
def globalOptions : List OptionSpec :=
  [versionOption, flagOption ["--json"], flagOption ["-v", "--verbose"], helpOption]

def lineOption : OptionSpec := { names := ["--line", "-l"], kind := .integer, required := true }

def columnOption : OptionSpec := { names := ["--column", "-c"], kind := .integer }

def tabSizeOption : OptionSpec := { names := ["--tab-size"], kind := .integer }

def actionsSpec : CommandSpec where
  name := "actions"
  options := [lineOption, columnOption, tabSizeOption]
  argument := some ("FILE", true)

def applySpec : CommandSpec where
  name := "apply"
  options :=
    [lineOption, columnOption, { names := ["--index", "-n"], kind := .integer },
      { names := ["--title", "-t"] }, flagOption ["--dry-run"], tabSizeOption,
      flagOption ["--no-reformat"]]
  argument := some ("FILE", true)

def namespaceSpec : CommandSpec where
  name := "namespace"
  options := [{ names := ["--workspace", "-w"], kind := .directory }]
  argument := some ("PATH", true)

def referencesSpec : CommandSpec where
  name := "refs"
  argument := some ("PATH", false)

def configSpec : CommandSpec where
  name := "config"
  options :=
    [{ names := ["--set"], arity := 2 }, { names := ["--unset"] }, flagOption ["--show"],
      { names := ["--root"], kind := .directory }]

def transports : List Text := ["stdio", "sse", "streamable-http"]

def serveSpec : CommandSpec where
  name := "mcp"
  options :=
    [{ names := ["--transport"], kind := .choice transports }, { names := ["--host"] },
      { names := ["--port"], kind := .integer }, flagOption ["--list-tools"]]

def commandSpecs : List CommandSpec :=
  [actionsSpec, applySpec, namespaceSpec, referencesSpec, configSpec, serveSpec]

namespace Parsed

variable (p : Parsed)

def argument : Text := p.arguments.headD []

def target : Target where
  file := p.argument
  line := (p.int? "--line").getD 1
  column := (p.int? "--column").getD 1
  tabSize := p.int? "--tab-size"

/-- An action is chosen either by number or by title. -/
def choice : Except UsageError Action.Choice :=
  match p.int? "--index", p.value? "--title" with
  | some n, none => .ok (.index n)
  | none, some t => .ok (.title t)
  | _, _ => .error (.other "pass exactly one of --index or --title")

/-- An empty name to remove counts as none. -/
def removed : Option Text :=
  (p.value? "--unset").filter fun name => !name.isEmpty

def configRequest : Except UsageError ConfigRequest :=
  match p.values? "--set", p.removed with
  | none, none => .ok .view
  | added, removed =>
    if p.flag "--show" then .error (.other "--show cannot be combined with --set or --unset")
    else
      match added with
      | some values => .ok (.set (values.getD 0 []) (values.getD 1 []))
      | none => .ok (.unset (removed.getD []))

end Parsed

/-- The command that the options and arguments of a specification ask for. -/
def CommandSpec.command (c : CommandSpec) (p : Parsed) : Except UsageError Command :=
  if p.flag "--help" then .ok (.help (some c))
  else if c = actionsSpec then .ok (.actions p.target)
  else if c = applySpec then
    p.choice.map fun choice => .apply p.target choice (p.flag "--dry-run") (!p.flag "--no-reformat")
  else if c = namespaceSpec then .ok (.namespaceOf p.argument (p.value? "--workspace"))
  else if c = referencesSpec then .ok (.references (p.arguments.headD "."))
  else if c = configSpec then p.configRequest.map (.config ((p.value? "--root").getD "."))
  else .ok .serve

/-- What the options in front of the command ask for in its place; the first one counts. -/
def Parsed.instead? (p : Parsed) : Option Command :=
  p.options.findSome? fun o =>
    if o.1 = versionOption then some .version
    else if o.1 = helpOption then some (.help none)
    else none

/-- Whether a text begins like an option, with neither a letter nor a digit. -/
def isOptionLike (name : Text) : Bool := name.head?.any fun c => !Text.isWord c || c = '_'

/-- The command with the given name and arguments. A name that is none but begins like an option
asks for help. -/
def namedCommand (w : Workspace) (name : Text) (args : List Text) : Except CommandError Command :=
  match commandSpecs.find? fun c => c.name = name with
  | none => if isOptionLike name then .ok (.help none) else .error (.usage (.noSuchCommand name))
  | some c =>
    match c.read w args with
    | .error e => .error e
    | .ok p =>
      match c.command p with
      | .error e => .error (.usage e)
      | .ok command => .ok command

/-- What reads command lines, and looks up the paths in them. -/
abbrev Reader := Workspace → List Text → Except CommandError Invocation

def Invocation.read : Reader := fun w args =>
  match parse globalOptions false args with
  | .error e => .error (.usage e)
  | .ok p =>
    if args.isEmpty then .ok { command := .help none }
    else
      match p.instead?, p.arguments with
      | some command, _ => .ok { command }
      | none, [] => .error (.usage .missingCommand)
      | none, name :: rest =>
        (namedCommand w name rest).map fun command => { json := p.flag "--json", command }

end CSharpActions.CommandLine
