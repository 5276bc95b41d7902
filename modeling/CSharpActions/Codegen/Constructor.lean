import CSharpActions.Codegen.Member

/-!
# Constructors from properties

A constructor that assigns each property from a parameter. Its text ends with a blank line, which
keeps it apart from the property that it is inserted above.
-/
namespace CSharpActions.Codegen

/-- A property as far as a constructor needs it. -/
structure Field where
  type : Text
  name : Text
deriving DecidableEq, Repr

def constructorParameters (fields : List Field) : List Text :=
  fields.map fun f => f.type ++ " " ++ camelize f.name

def constructorAssignments (fields : List Field) (s : Settings) : List Text :=
  fields.map fun f => selfPrefix s ++ f.name ++ " = " ++ camelize f.name ++ ";"

def constructorLines (modifier name : Text) (fields : List Field) (s : Settings) (style : Style) :
    List Text :=
  let outer := style.memberIndent s
  let inner := style.bodyIndent s
  [outer ++ modifier ++ " " ++ name ++ "(" ++
      List.intercalate ", " (constructorParameters fields) ++ ")",
    outer ++ "\x7b"] ++
    (constructorAssignments fields s).map (inner ++ ·) ++ [outer ++ "\x7d", []]

def generateConstructor (modifier name : Text) (fields : List Field) (s : Settings)
    (style : Style) : Text :=
  List.intercalate style.eol (constructorLines modifier name fields s style) ++ style.eol

/-- The same text, if it can be built. -/
def constructorWithin (room : Text.Room) (modifier name : Text) (fields : List Field) (s : Settings)
    (style : Style) : Except Text.SizeError Text :=
  match style.unitError? room s with
  | some e => .error e
  | none =>
    let text := generateConstructor modifier name fields s style
    match Text.firstError? room [text] with
    | some e => .error e
    | none => .ok text

end CSharpActions.Codegen
