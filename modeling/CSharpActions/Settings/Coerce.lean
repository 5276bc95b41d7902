import CSharpActions.Json.Printer
import CSharpActions.Settings
import CSharpActions.Text.Integer

/-!
# Values of settings

A setting is given as text or as a JSON value, and is converted to the type of the setting.
-/
namespace CSharpActions

inductive Setting where
  | tabSize
  | useThis
  | privatePrefix
  | reformat
deriving DecidableEq, Repr

namespace Setting

def all : List Setting := [.tabSize, .useThis, .privatePrefix, .reformat]

/-- The name of the setting in files and on the command line. -/
def name : Setting → Text
  | .tabSize => "tab_size"
  | .useThis => "use_this_for_ctor_assignments"
  | .privatePrefix => "private_member_prefix"
  | .reformat => "reformat_after_change"

def ofName? (t : Text) : Option Setting := all.find? (·.name = t)

/-- The environment variable for the setting. -/
def environmentName : Setting → Text
  | .tabSize => "SHARPKIT_TAB_SIZE"
  | .useThis => "SHARPKIT_USE_THIS"
  | .privatePrefix => "SHARPKIT_PRIVATE_MEMBER_PREFIX"
  | .reformat => "SHARPKIT_REFORMAT"

/-- A converted value. -/
inductive Value where
  | int (n : Int)
  | bool (b : Bool)
  | text (t : Text)
deriving DecidableEq, Repr

def Value.toJson : Value → Json
  | .int n => .int n
  | .bool b => .bool b
  | .text t => .str t

inductive Error where
  | unknown (name : Text)
  | notBoolean (s : Setting) (value : Json)
  | booleanForInteger (s : Setting) (value : Json)
  | notInteger (e : Text.IntegerError)
  | undefinedNumber
  | outOfRange (s : Setting) (n : Int)
  /-- A value that is neither text nor a number. -/
  | noNumber
  | infiniteNumber

def Error.message : Error → Text
  | .unknown name => "unknown setting: " ++ name
  | .notBoolean s value => s.name ++ " expects a boolean, got " ++ value.display
  | .booleanForInteger s value => s.name ++ " expects an integer, got " ++ value.display
  | .notInteger e => e.message
  | .undefinedNumber => "cannot convert float NaN to integer"
  | .outOfRange s n =>
    match Text.writeInt n with
    | .ok number => s.name ++ " must be between 1 and 16, got " ++ number
    | .error e => e.message
  | .noNumber => "neither text nor a number"
  | .infiniteNumber => "cannot convert float infinity to integer"

/-- Whether the error is about the value alone, so that the setting can be passed over. -/
def Error.isInvalidValue : Error → Bool
  | .noNumber => false
  | .infiniteNumber => false
  | _ => true

def trueWords : List Text := ["1", "true", "yes", "on"]

def falseWords : List Text := ["0", "false", "no", "off"]

/-- Words count without the blanks around them and in any letter case of ASCII; no other
character turns into a letter of these words. -/
def coerceBool (s : Setting) (value : Json) : Except Error Bool :=
  match value with
  | .bool b => .ok b
  | v =>
    let word := (Text.trim v.plainText).map CodePoint.toLower
    if trueWords.contains word then .ok true
    else if falseWords.contains word then .ok false
    else .error (.notBoolean s v)

/-- The integer that a value stands for; a number loses its fraction. -/
def integerOf (s : Setting) (value : Json) : Except Error Int :=
  match value with
  | .bool b => .error (.booleanForInteger s (.bool b))
  | .int n => .ok n
  | .float x =>
    match x with
    | .nan => .error .undefinedNumber
    | .infinite _ => .error .infiniteNumber
    | x => .ok (x.truncate?.getD 0)
  | .str t =>
    match Text.readInt t with
    | .ok n => .ok n
    | .error e => .error (.notInteger e)
  | _ => .error .noNumber

def coerceTabSize (value : Json) : Except Error Int :=
  match integerOf .tabSize value with
  | .error e => .error e
  | .ok n => if n < 1 || 16 < n then .error (.outOfRange .tabSize n) else .ok n

def coerceText : Json → Text
  | .null => []
  | v => v.plainText

/-- Converts a value to the type of a setting. -/
def coerce (s : Setting) (value : Json) : Except Error Value :=
  match s with
  | .tabSize => (coerceTabSize value).map .int
  | .privatePrefix => .ok (.text (coerceText value))
  | s => (coerceBool s value).map .bool

/-- Converts a value to the type of the setting with the given name. -/
def coerceNamed (name : Text) (value : Json) : Except Error Value :=
  match ofName? name with
  | some s => coerce s value
  | none => .error (.unknown name)

end Setting

namespace Settings

/-- The settings with one value replaced; a value of another type changes nothing. -/
def set (c : Settings) : Setting → Setting.Value → Settings
  | .tabSize, .int n => { c with tabSize := n }
  | .useThis, .bool b => { c with useThis := b }
  | .privatePrefix, .text t => { c with privatePrefix := t }
  | .reformat, .bool b => { c with reformat := b }
  | _, _ => c

def get (c : Settings) : Setting → Setting.Value
  | .tabSize => .int c.tabSize
  | .useThis => .bool c.useThis
  | .privatePrefix => .text c.privatePrefix
  | .reformat => .bool c.reformat

theorem get_set_of_ne (c : Settings) {s k : Setting} (v : Setting.Value) (h : k ≠ s) :
    (c.set s v).get k = c.get k := by
  cases s <;> cases v <;> cases k <;> simp_all [set, get]

/-- A converted value is of the type of its setting. -/
theorem get_set_coerce (c : Settings) {s : Setting} {raw : Json} {v : Setting.Value}
    (h : s.coerce raw = .ok v) : (c.set s v).get s = v := by
  cases s <;> simp only [Setting.coerce] at h
  · cases hr : Setting.coerceTabSize raw <;> simp [hr, Except.map] at h
    subst h; rfl
  · cases hr : Setting.coerceBool .useThis raw <;> simp [hr, Except.map] at h
    subst h; rfl
  · cases h; rfl
  · cases hr : Setting.coerceBool .reformat raw <;> simp [hr, Except.map] at h
    subst h; rfl

def toJson (c : Settings) : Json :=
  .obj (Setting.all.map fun s => (s.name, (c.get s).toJson))

end Settings

end CSharpActions
