import CSharpActions.Declaration.Class

/-!
# Property declarations

A line declares an automatic property where it holds a modifier, blanks, a type, blanks, a name
and an accessor list on the same line: a getter, and a setter that may be private. A property whose
accessors stand on lines of their own is not recognised.
-/
namespace CSharpActions

namespace PropertyDecl

def modifiers : List Text := ["public", "private", "protected"]

/-- The characters of a type. -/
def isTypeChar (c : CodePoint) : Bool :=
  Text.isWord c || c = '.' || c = '<' || c = '>' || c = '[' || c = ']' || c = '?'

/-- Reads a non-empty run of characters that satisfy `p`. -/
def run? (p : CodePoint → Bool) (t : Text) : Option (Text × Text) :=
  let w := t.takeWhile p
  if w.isEmpty then none else some (w, t.dropWhile p)

/-- Reads the given text after any blanks. -/
def symbol? (w t : Text) : Option Text := Text.after? w (t.dropWhile Text.isBlank)

/-- Drops the word private and the blanks after it, if they stand there. -/
def skipPrivate (t : Text) : Text := (ClassDecl.keyword? "private" t).getD t

/-- Drops a setter, if it stands there. -/
def skipSetter (t : Text) : Text := (Text.after? "set;" t).getD t

/-- Reads the accessors of a property, from the opening to the closing brace. -/
def accessors? (t : Text) : Option Text :=
  (symbol? [.char '{'] t).bind fun r =>
    (symbol? "get;" r).bind fun r =>
      symbol? [.char '}'] (skipSetter (skipPrivate (r.dropWhile Text.isBlank)))

/-- What a property at the beginning of a text says, and what follows it. -/
structure Head where
  modifier : Text
  type : Text
  name : Text
  rest : Text
deriving DecidableEq, Repr

def head? (t : Text) : Option Head :=
  (ClassDecl.anyKeyword? modifiers t).bind fun (modifier, r) =>
    (run? isTypeChar r).bind fun (type, r) =>
      (Text.blanks? r).bind fun r =>
        (run? Text.isWord r).bind fun (name, r) =>
          (accessors? r).map fun r => ⟨modifier, type, name, r⟩

/-- A property with the text that declares it. -/
structure Found where
  modifier : Text
  type : Text
  name : Text
  statement : Text
deriving DecidableEq, Repr

/-- The property that a line declares. -/
def find? (line : Text) : Option Found :=
  (Text.leftmost? head? line).map fun (i, h) =>
    { modifier := h.modifier, type := h.type, name := h.name,
      statement := (line.drop i).take (line.length - i - h.rest.length) }

end PropertyDecl

structure PropertyDecl where
  owner : ClassDecl
  modifier : Text
  type : Text
  name : Text
  lineNumber : Nat
  statement : Text
deriving DecidableEq, Repr

end CSharpActions
