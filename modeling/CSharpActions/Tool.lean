import CSharpActions.CommandLine.Run

/-!
# Tools

The commands as tools for other programs: positions and numbers of actions are counted from zero,
positions are moved into the document, and a failure that the program foresees is answered with an
error object.
-/
namespace CSharpActions.Tool

open CommandLine (namespaceJson noProject)

variable (w : Workspace) (timestamp : Text)

/-- The actions at a position. -/
def openAt (path : Text) (p : Position) : Except CommandError Workspace.Opened :=
  match w.loadDocument path with
  | .error f => .error (.failed f)
  | .ok document =>
    match w.settingsFor path [] with
    | .error e => .error (.config e)
    | .ok settings =>
      match document.offer (document.clamp p) settings with
      | .error e => .error (.search e)
      | .ok actions => .ok ⟨document, settings, actions⟩

/-- Answers a foreseen failure; any other error stays one. -/
def answer : Except CommandError Json → Except CommandError Json
  | .error (.failed f) => .ok f.toJson
  | r => r

def codeActions (path : Text) (p : Position) : Except CommandError Json :=
  answer <| (openAt w path p).map fun opened =>
    Report.envelope timestamp "actions" [("count", .int opened.actions.length)]
      [("actions", Action.listJson 0 opened.actions)]

/-- What a tool answers about an applied action; the text is given only if it was not written. -/
def appliedJson (dryRun : Bool) (a : Action) (messages : List Message) (r : Applied) : Json :=
  Report.envelope timestamp "apply"
    [("action", .str a.title), ("changed", .bool r.changed), ("dry_run", .bool dryRun)]
    [("result", r.toJson), ("text", if dryRun then .str r.document.text else .null),
      ("messages", .arr (messages.map Message.toJson))]

def outcomeAnswer (dryRun : Bool) (a : Action) (o : Outcome σ) : Except CommandError Json :=
  match o.result with
  | .error e => answer (.error (.ofApply e))
  | .ok r => .ok (appliedJson timestamp dryRun a o.messages r)

/-- Applies the action with the given number, and gives the files afterwards. -/
def applyAction (path : Text) (p : Position) (index : Int) (dryRun : Bool) :
    Except CommandError Json × FileTree :=
  match openAt w path p with
  | .error e => (answer (.error e), w.tree)
  | .ok opened =>
    match if index < 0 then none else opened.actions[index.toNat]? with
    | none =>
      let e := Action.NoAction.index index opened.actions.length
      (answer (.error e.toCommandError), w.tree)
    | some a =>
      let host : Host := { settings := opened.settings }
      if dryRun then
        (outcomeAnswer timestamp dryRun a (a.execute host (memorySink none) {}), w.tree)
      else
        let o := a.execute host (Workspace.fileSink w.cwd w.faults) w.tree
        (outcomeAnswer timestamp dryRun a o, o.sink)

def namespaceOf (path root : Text) : Except CommandError Json :=
  let q := NamespaceQuery.ofPaths w path (some root)
  match q.answer w with
  | .error e => .error (.namespaceOf e)
  | .ok name => .ok (namespaceJson timestamp q name)

/-- The references of the nearest project file at or above a directory. -/
def references (path : Text) : Except CommandError Json :=
  match w.tree.findUp NamespaceQuery.projectPattern (w.absolute path) with
  | .error e => .error (.file e)
  | .ok none =>
    .ok (Report.errorJson (noProject path) "FILE_NOT_FOUND" "pass a directory inside a C# project."
      Report.ExitCode.fileMissing)
  | .ok (some file) =>
    match w.readProject file.render with
    | .error e =>
      .ok (Report.errorJson e.message "COMMAND_FAILED" "check file permissions."
        Report.ExitCode.general)
    | .ok text =>
      match ProjectFile.read w.platform.parseXml text with
      | .error e => .error (.xml e)
      | .ok project => .ok (Report.referencesJson timestamp file.render project)

end CSharpActions.Tool
