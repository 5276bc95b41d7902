import CSharpActions.Settings.Coerce

/-!
# Layers of settings

Each setting comes from the highest layer that has a valid value for it: the overrides of a
command, the environment, the configuration file, the defaults. An invalid value is passed over
with a warning, and names of no setting are passed over silently.
-/
namespace CSharpActions.Settings

inductive Source where
  | file
  | environment
  | override
deriving DecidableEq, Repr

def Source.word : Source → Text
  | .file => "config file"
  | .environment => "environment"
  | .override => "override"

/-- A layer: raw values by name. -/
structure Layer where
  source : Source
  values : List (Text × Json)

/-- An invalid value that was passed over. -/
structure Ignored where
  source : Source
  error : Setting.Error

def Ignored.message (i : Ignored) : Text :=
  "ignoring " ++ i.source.word ++ " setting: " ++ i.error.message

/-- Settings together with the warnings so far. -/
structure Loaded where
  settings : Settings := {}
  ignored : List Ignored := []

/-- Takes one raw value into account. -/
def Loaded.add (source : Source) (l : Loaded) (name : Text) (raw : Json) :
    Except Setting.Error Loaded :=
  match Setting.ofName? name with
  | none => .ok l
  | some s =>
    match Setting.coerce s raw with
    | .ok v => .ok { l with settings := l.settings.set s v }
    | .error e =>
      if e.isInvalidValue then .ok { l with ignored := l.ignored ++ [⟨source, e⟩] } else .error e

def Loaded.addAll (source : Source) : Loaded → List (Text × Json) → Except Setting.Error Loaded
  | l, [] => .ok l
  | l, (name, raw) :: rest =>
    match l.add source name raw with
    | .error e => .error e
    | .ok l => addAll source l rest

/-- Applies the layers, the lowest first. -/
def applyLayers : Loaded → List Layer → Except Setting.Error Loaded
  | l, [] => .ok l
  | l, layer :: rest =>
    match l.addAll layer.source layer.values with
    | .error e => .error e
    | .ok l => applyLayers l rest

/-- The layer of the environment variables that are set. -/
def environmentLayer (env : List (Text × Text)) : Layer :=
  ⟨.environment, Setting.all.filterMap fun s => (env.lookup s.environmentName).map (s.name, .str ·)⟩

/-- The layer of the overrides that are given. -/
def overrideLayer (values : List (Text × Json)) : Layer :=
  ⟨.override, values.filter fun v => match v.2 with | .null => false | _ => true⟩

end CSharpActions.Settings
