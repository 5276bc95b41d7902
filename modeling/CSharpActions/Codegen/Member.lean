import CSharpActions.Codegen.Name
import CSharpActions.Settings
import CSharpActions.Text.Quoted

/-!
# Members from constructor parameters

The declaration of a field or property for one constructor parameter, and its assignment in the
constructor.
-/
namespace CSharpActions.Codegen

inductive MemberKind where
  | field
  | readonlyProperty
  | property
deriving DecidableEq, Repr

namespace MemberKind

def all : List MemberKind := [.field, .readonlyProperty, .property]

/-- The word that names the kind in reports. -/
def word : MemberKind → Text
  | .field => "private_field"
  | .readonlyProperty => "readonly_property"
  | .property => "property"

def title : MemberKind → Text
  | .field => "Initialize field from parameter..."
  | .readonlyProperty => "Initialize readonly property from parameter..."
  | .property => "Initialize property from parameter..."

end MemberKind

/-- A word that names no kind of member. -/
structure UnknownKind where
  word : Text
deriving DecidableEq, Repr

def UnknownKind.message (e : UnknownKind) : Text :=
  "unsupported member type: " ++ Text.quoted e.word

def MemberKind.ofWord (w : Text) : Except UnknownKind MemberKind :=
  match all.find? (·.word = w) with
  | some k => .ok k
  | none => .error ⟨w⟩

structure Member where
  kind : MemberKind
  declaration : Text
  assignment : Text
deriving DecidableEq, Repr

/-- How the lines around generated code look; what is absent follows from the settings. -/
structure Style where
  indent : Option Text := none
  eol : Text := ['\n']
  unit : Option Text := none
deriving DecidableEq, Repr

namespace Style

/-- One level of indentation. -/
def step (style : Style) (s : Settings) : Text := style.unit.getD (s.indent 1)

/-- The indentation of a member; without a given one it stands two levels deep. -/
def memberIndent (style : Style) (s : Settings) : Text :=
  style.indent.getD (style.step s ++ style.step s)

/-- What keeps a level from being put together where it follows from the settings. -/
def unitError? (style : Style) (room : Text.Room) (s : Settings) : Option Text.SizeError :=
  if style.unit.isSome then none else s.indentError? room 1

def bodyIndent (style : Style) (s : Settings) : Text := style.memberIndent s ++ style.step s

end Style

def selfPrefix (s : Settings) : Text := if s.useThis then "this." else ""

def memberName (kind : MemberKind) (s : Settings) (parameter : Text) : Text :=
  match kind with
  | .field => s.privatePrefix ++ parameter
  | _ => capitalize parameter

def memberDeclaration (kind : MemberKind) (type member : Text) : Text :=
  match kind with
  | .field => "private readonly " ++ type ++ " " ++ member ++ ";"
  | .readonlyProperty => "public " ++ type ++ " " ++ member ++ " \x7b get; \x7d"
  | .property => "public " ++ type ++ " " ++ member ++ " \x7b get; set; \x7d"

def memberAssignment (s : Settings) (member parameter : Text) : Text :=
  selfPrefix s ++ member ++ " = " ++ parameter ++ ";"

def generateMember (kind : MemberKind) (type parameter : Text) (s : Settings) (style : Style) :
    Member :=
  let member := memberName kind s parameter
  { kind
    declaration := style.memberIndent s ++ memberDeclaration kind type member ++ style.eol
    assignment := style.bodyIndent s ++ memberAssignment s member parameter ++ style.eol }

/-- The same member, if its texts can be built. -/
def memberWithin (room : Text.Room) (kind : MemberKind) (type parameter : Text) (s : Settings)
    (style : Style) : Except Text.SizeError Member :=
  match style.unitError? room s with
  | some e => .error e
  | none =>
    let member := generateMember kind type parameter s style
    match Text.firstError? room [member.declaration, member.assignment] with
    | some e => .error e
    | none => .ok member

end CSharpActions.Codegen
