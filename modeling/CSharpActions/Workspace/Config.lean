import CSharpActions.Json.Parser
import CSharpActions.Settings.Layers
import CSharpActions.Workspace.Basic

/-!
# Configuration files

The settings of a project stand in a JSON file below its root. A file that cannot be read or is not
an object counts as empty, with a warning.
-/
namespace CSharpActions.Workspace

/-- Why a configuration file cannot be read. -/
inductive Unreadable where
  | file (e : FileError)
  | malformed
deriving DecidableEq, Repr

inductive Warning where
  | unreadable (path : Text) (why : Unreadable)
  | notObject (path : Text)
  | ignored (i : Settings.Ignored)

/-- What a warning says; `word` names the reason for which a file cannot be read. -/
def Warning.message (word : Unreadable → Text) : Warning → Text
  | .unreadable path why => "ignoring unreadable config " ++ path ++ ": " ++ word why
  | .notObject path => "ignoring config " ++ path ++ ": expected a JSON object"
  | .ignored i => i.message

/-- What stops a run that reads or writes settings. -/
inductive ConfigError where
  /-- The configuration file is not UTF-8. -/
  | undecodable
  /-- The configuration file exceeds a bound of JSON texts. -/
  | limit (l : Json.Limit)
  | setting (e : Setting.Error)
  | file (e : FileError)

def configDirectory (root : Text) : Text := ((Path.ofText root).join [".sharpkit"]).render

def configPath (root : Text) : Text := ((Path.ofText root).join [".sharpkit", "config.json"]).render

variable (w : Workspace)

/-- The fields of the configuration file below a root. -/
def loadConfig (root : Text) : Except ConfigError (List (Text × Json) × List Warning) :=
  let path := configPath root
  match w.tree.find? w.cwd path with
  | .error e => .error (.file e)
  | .ok none => .ok ([], [])
  | .ok (some _) =>
    match w.readRaw path with
    | .error e => .ok ([], [.unreadable path (.file e)])
    | .ok bytes =>
      match Text.Utf8.decode? bytes with
      | none => .error .undecodable
      | some text =>
        match Json.parse w.platform.jsonNesting (Text.unifyNewlines text) with
        | .error .malformed => .ok ([], [.unreadable path .malformed])
        | .error (.limit l) => .error (.limit l)
        | .ok (.obj fields) => .ok (fields, [])
        | .ok _ => .ok ([], [.notObject path])

/-- Sets the given fields; a null removes its field. -/
def mergeFields (fields : List (Text × Json)) : List (Text × Json) → List (Text × Json)
  | [] => fields
  | (key, .null) :: r => mergeFields (Json.removeField key fields) r
  | (key, value) :: r => mergeFields (Json.setField key value fields) r

/-- Changes fields of the configuration file below a root, and makes the file if it is missing. A
written document is ASCII, so that it can be encoded. -/
def writeConfig (root : Text) (values : List (Text × Json)) :
    Except ConfigError Unit × FileTree :=
  match w.tree.makeDirectory w.cwd (configDirectory root) with
  | .error e => (.error (.file e), w.tree)
  | .ok tree =>
    match { w with tree }.loadConfig root with
    | .error e => (.error e, tree)
    | .ok (fields, _) =>
      let text := Json.render (.obj (mergeFields fields values)) ++ "\n"
      match tree.store w.cwd (configPath root) ((Text.Utf8.encode? text).getD []) with
      | .error e => (.error (.file e), tree)
      | .ok tree => (.ok (), tree)

/-- The settings for a path, and the warnings on the way. -/
def loadSettings (start : Text) (overrides : List (Text × Json)) :
    Except ConfigError (Settings × List Warning) :=
  match w.projectRoot start with
  | .error e => .error (.file e)
  | .ok root =>
    match w.loadConfig root.render with
    | .error e => .error e
    | .ok (fields, warnings) =>
      match Settings.applyLayers {}
          [⟨.file, fields⟩, Settings.environmentLayer w.env, Settings.overrideLayer overrides] with
      | .error e => .error (.setting e)
      | .ok loaded => .ok (loaded.settings, warnings ++ loaded.ignored.map .ignored)

/-- The settings for the project of a file. -/
def settingsFor (path : Text) (overrides : List (Text × Json)) : Except ConfigError Settings :=
  (w.loadSettings (w.locate path).parent.render overrides).map (·.1)

end CSharpActions.Workspace
