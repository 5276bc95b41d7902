import CSharpActions.Action.Report
import CSharpActions.CommandLine.Command
import CSharpActions.Diff.Unified
import CSharpActions.Project.Namespace
import CSharpActions.Report.References
import CSharpActions.Text.ControlSequence
import CSharpActions.Workspace.FileSink

/-!
# Running commands

A run leaves the files as they are, except that applying an action writes the file of the action
and a change of settings writes the configuration file.
-/
namespace CSharpActions

/-- The actions at a place of a file, and what they depend on. -/
structure Workspace.Opened where
  document : Document
  settings : Settings
  actions : List Action

/-- The position for a line and a column that are counted from one. -/
def Document.positionAt (d : Document) (line column : Int) : Except UsageError Position :=
  if line < 1 || column < 1 then
    .error (.invalidValue "--line/--column" "line and column are 1-based")
  else .ok (d.clamp ⟨line - 1, column - 1⟩)

namespace CommandLine

/-- What a run does and says. -/
structure Run where
  tree : FileTree
  stdout : Text := []
  stderr : Text := []
  /-- The exit code, or why the command failed. -/
  result : Except CommandError Int := .ok Report.ExitCode.success

def Run.fail (w : Workspace) (e : CommandError) : Run := { tree := w.tree, result := .error e }

def Run.print (w : Workspace) (text : Text) : Run := { tree := w.tree, stdout := text }

/-- How a command answers; JSON output carries the time of the run. -/
inductive Output where
  | plain
  | json (timestamp : Text)
deriving DecidableEq, Repr

def lineOf (text : Text) : Text := text ++ "\n"

def jsonLine (v : Json) : Text := lineOf (Json.render v)

variable (w : Workspace) (output : Output)

def openTarget (t : Target) (reformat : Bool) : Except CommandError Workspace.Opened :=
  match w.loadDocument t.file with
  | .error f => .error (.failed f)
  | .ok document =>
    match document.positionAt t.line t.column with
    | .error e => .error (.usage e)
    | .ok position =>
      let overrides : List (Text × Json) :=
        (t.tabSize.map fun n => (Setting.tabSize.name, .int n)).toList ++
          if reformat then [] else [(Setting.reformat.name, .bool false)]
      match w.settingsFor t.file overrides with
      | .error e => .error (.config e)
      | .ok settings =>
        match document.offer position settings with
        | .error e => .error (.search e)
        | .ok actions => .ok ⟨document, settings, actions⟩

def Target.location (t : Target) : Text := Report.location t.file (some t.line) (some t.column)

/-- The actions in the order of their numbers, as a table. -/
def actionsTable (actions : List Action) : Except Report.RowTooLong Text :=
  Report.table ["#", "title", "command"]
    ((actions.zipIdx 1).map fun (a, i) => [Text.ofNat i, a.title, a.command])

/-- Prints a table, whose rows have as many cells as it has columns. -/
def Run.ofTable (table : Except Report.RowTooLong Text) : Run :=
  match table with
  | .ok text => .print w text
  | .error _ => .fail w (.failed (.general Report.RowTooLong.message Report.ExitCode.general))

def runActions (t : Target) : Run :=
  match openTarget w t true with
  | .error e => .fail w e
  | .ok opened =>
    match output with
    | .json timestamp =>
      .print w (jsonLine (Report.envelope timestamp "actions"
        [("count", .int opened.actions.length), ("location", .str t.location)]
        [("actions", Action.listJson 1 opened.actions)]))
    | .plain =>
      if opened.actions.isEmpty then .print w (lineOf ("No code actions at " ++ t.location))
      else .ofTable w ((actionsTable opened.actions).map lineOf)

/-- The text of an applied action for the user. -/
def appliedText (t : Target) (dryRun : Bool) (a : Action) (before : Text) (r : Applied) : Text :=
  let diff := Diff.unified t.file before r.document.text
  match output with
  | .json timestamp =>
    jsonLine (Report.envelope timestamp "apply"
      [("action", .str a.title), ("changed", .bool r.changed), ("dry_run", .bool dryRun),
        ("location", .str t.location)]
      [("result", r.toJson), ("diff", .str diff)])
  | .plain =>
    if !r.changed then lineOf ("Nothing to do: " ++ a.title ++ " is already applied.")
    else if dryRun then diff
    else
      lineOf ("Applied " ++ Text.quoted a.title ++ " to " ++ t.file ++ " (" ++
        Text.ofNat r.edits.length ++ " edit(s))")

def messageLine (m : Message) : Text :=
  match m.level with
  | .error => lineOf ("Error: " ++ m.text)
  | .info => lineOf m.text

/-- The run that ends with the outcome of an action and the given files. -/
def Run.ofOutcome (tree : FileTree) (text : Applied → Text) (o : Outcome σ) : Run :=
  let stderr := o.messages.flatMap messageLine
  match o.result with
  | .error e => { tree, stderr, result := .error (.ofApply e) }
  | .ok r => { tree, stderr, stdout := text r }

def runApply (t : Target) (choice : Action.Choice) (dryRun reformat : Bool) : Run :=
  match openTarget w t reformat with
  | .error e => .fail w e
  | .ok opened =>
    match Action.select opened.actions choice with
    | .error e => .fail w e.toCommandError
    | .ok a =>
      let host : Host := { settings := opened.settings }
      let text := appliedText output t dryRun a opened.document.text
      if dryRun then .ofOutcome w.tree text (a.execute host (memorySink none) {})
      else
        let outcome := a.execute host (Workspace.fileSink w.cwd w.faults) w.tree
        .ofOutcome outcome.sink text outcome

def namespaceJson (timestamp : Text) (q : NamespaceQuery) (answer : Text) : Json :=
  Report.envelope timestamp "namespace" [("namespace", .str answer)] [("path", .str q.file.render)]

def runNamespace (path : Text) (root : Option Text) : Run :=
  let q := NamespaceQuery.ofPaths w path root
  match q.answer w with
  | .error e => .fail w (.namespaceOf e)
  | .ok answer =>
    match output with
    | .json timestamp => .print w (jsonLine (namespaceJson timestamp q answer))
    | .plain => .print w (lineOf answer)

/-- The project file that a path names, or the nearest one at or above it. -/
def projectFileFor (path : Text) : Except FileError (Option Text) :=
  if ".csproj".text.isSuffixOf path && w.tree.isFile w.cwd path then .ok (some path)
  else
    let start := w.absolute path
    let directory := if w.tree.isDirectory w.cwd path then start else start.parent
    (w.tree.findUp NamespaceQuery.projectPattern directory).map (·.map Path.render)

def noProject (path : Text) : Text := "No *.csproj found at or above " ++ path

def runReferences (path : Text) : Run :=
  match projectFileFor w path with
  | .error e => .fail w (.file e)
  | .ok none => .fail w (.failed (.general (noProject path) Report.ExitCode.fileMissing))
  | .ok (some project) =>
    match w.readProject project with
    | .error e =>
      .fail w (.failed (.general ("Cannot read " ++ project ++ ": " ++ e.kind.reason)
        Report.ExitCode.general))
    | .ok text =>
      match ProjectFile.read w.platform.parseXml text with
      | .error e => .fail w (.xml e)
      | .ok file =>
        match output with
        | .json timestamp => .print w (jsonLine (Report.referencesJson timestamp project file))
        | .plain => .ofTable w (Report.referencesText project file)

def configJson (timestamp : Text) (summary payload : List (Text × Json)) : Text :=
  jsonLine (Report.envelope timestamp "config" summary payload)

/-- Writes the configuration file below a root, and then prints. -/
def writeAndPrint (root : Text) (values : List (Text × Json)) (text : Text) : Run :=
  match w.writeConfig root values with
  | (.error e, tree) => { tree, result := .error (.config e) }
  | (.ok (), tree) => { tree, stdout := text }

def setConfig (root name value : Text) : Run :=
  match Setting.coerceNamed name (.str value) with
  | .error e => .fail w (.usage (.invalidValue "--set" e.message))
  | .ok v =>
    let path := Workspace.configPath root
    writeAndPrint w root [(name, v.toJson)]
      (match output with
        | .json timestamp =>
          configJson timestamp [("verdict", .str "saved"), (name, v.toJson)]
            [("config_path", .str path)]
        | .plain =>
          lineOf ("Saved " ++ name ++ " = " ++ v.toJson.display) ++
            lineOf ("Config written to " ++ path))

def unsetConfig (root name : Text) : Run :=
  if (Setting.ofName? name).isNone then
    .fail w (.usage (.invalidValue "--unset" (Setting.Error.unknown name).message))
  else
    let path := Workspace.configPath root
    writeAndPrint w root [(name, .null)]
      (match output with
        | .json timestamp =>
          configJson timestamp [("verdict", .str "removed"), ("key", .str name)]
            [("config_path", .str path)]
        | .plain => lineOf ("Removed " ++ name ++ " from " ++ path))

/-- A setting with its value, marked if the configuration file has it. -/
def settingLine (stored : List (Text × Json)) (s : Settings) (k : Setting) : Text :=
  lineOf ("  " ++ k.name ++ " = " ++ (s.get k).toJson.display ++
    if (stored.lookup k.name).isSome then "  (from config)".text else [])

def viewConfig (root : Text) : Run :=
  match w.loadConfig root, w.loadSettings root [] with
  | .error e, _ => .fail w (.config e)
  | _, .error e => .fail w (.config e)
  | .ok (stored, _), .ok (settings, _) =>
    let path := Workspace.configPath root
    match output with
    | .json timestamp =>
      .print w (configJson timestamp [("verdict", .str "shown")]
        [("config_path", .str path), ("stored", .obj stored), ("effective", settings.toJson)])
    | .plain =>
      .print w (lineOf ("Config: " ++ path) ++ Setting.all.flatMap (settingLine stored settings))

def runConfig (start : Text) (request : ConfigRequest) : Run :=
  match w.projectRoot start with
  | .error e => .fail w (.file e)
  | .ok root =>
    match request with
    | .set name value => setConfig w output root.render name value
    | .unset name => unsetConfig w output root.render name
    | .view => viewConfig w output root.render

/-- The server is a separate package, which is not there. -/
def serverMissing : Text :=
  "Error: fastmcp is required for the MCP server.\ninstall it with:  pip install sharpkit[mcp]\n"

def programName : Text := "sharpkit"

/-- A line on how to call the program or a command. -/
def usageLine (spec : Option CommandSpec) : Text :=
  "Usage: " ++ programName ++
    match spec with
    | none => " [OPTIONS] COMMAND [ARGS]...\n"
    | some c =>
      " " ++ c.name ++ " [OPTIONS]" ++
        (match c.argument with
          | some (name, true) => " " ++ name
          | some (name, false) => " [" ++ name ++ "]"
          | none => []) ++ "\n"

def Command.run : Command → Run
  | .help spec => .print w (usageLine spec)
  | .version => .print w (lineOf (programName ++ ", version " ++ Report.version))
  | .actions t => runActions w output t
  | .apply t choice dryRun reformat => runApply w output t choice dryRun reformat
  | .namespaceOf path root => runNamespace w output path root
  | .references path => runReferences w output path
  | .config start request => runConfig w output start request
  | .serve => { tree := w.tree, stderr := serverMissing, result := .ok Report.ExitCode.general }

/-- What a platform shows of a run: control sequences are for terminals only, and nothing is printed
that standard output cannot encode. -/
def Run.shown (platform : Platform) (r : Run) : Run :=
  let display := if platform.isTerminal then id else Text.dropControlSequences
  if r.stdout.all platform.encodes then
    { r with stdout := display r.stdout, stderr := display r.stderr }
  else { tree := r.tree, result := .error .unencodable }

/-- Runs a command line, as the reader reads it, at the given time. -/
def run (reader : Reader) (timestamp : Text) (args : List Text) : Run :=
  match reader w args with
  | .error e => .fail w e
  | .ok i => (i.command.run w (if i.json then .json timestamp else .plain)).shown w.platform

end CommandLine

end CSharpActions
