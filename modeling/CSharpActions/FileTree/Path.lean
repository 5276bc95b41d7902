import CSharpActions.Text.Basic

/-!
# Paths

A location is the list of names from the root of a file tree to an entry. A path as it is written
is a text; it is read against a current location, either by its words alone or by walking through
the tree. A path in order has no empty and no dot parts, and keeps whether it begins with exactly
two slashes.
-/
namespace CSharpActions

abbrev Location := List Text

/-- The directory above; the root is above itself. -/
def Location.parent (l : Location) : Location := l.dropLast

namespace Path

/-- Where a path begins. -/
inductive Root where
  /-- At the current location. -/
  | relative
  | slash
  /-- With exactly two slashes, which mean the same place as one. -/
  | doubleSlash
deriving DecidableEq, Repr

end Path

structure Path where
  root : Path.Root := .slash
  names : List Text
deriving DecidableEq, Repr

namespace Path

/-- The parts of a written path. -/
def parts (written : Text) : List Text := Text.splitOn '/' written

def isHere (part : Text) : Bool := part.isEmpty || part = ".".text

def isAbove (part : Text) : Bool := part = "..".text

def rootOf : Text → Root
  | .char '/' :: .char '/' :: .char '/' :: _ => .slash
  | .char '/' :: .char '/' :: _ => .doubleSlash
  | .char '/' :: _ => .slash
  | _ => .relative

def isAbsolute (written : Text) : Bool := rootOf written ≠ .relative

def ofText (written : Text) : Path :=
  ⟨rootOf written, (parts written).filter fun p => !isHere p⟩

def render (p : Path) : Text :=
  let words := List.intercalate "/" p.names
  match p.root with
  | .relative => if p.names.isEmpty then "." else words
  | .slash => "/" ++ words
  | .doubleSlash => "//" ++ words

/-- The path above; a path without names is above itself. -/
def parent (p : Path) : Path := { p with names := p.names.dropLast }

/-- The path followed by further names. -/
def join (p : Path) (names : List Text) : Path := { p with names := p.names ++ names }

/-- One step by the words of a path alone. -/
def step (l : Location) (part : Text) : Location :=
  if isHere part then l else if isAbove part then l.parent else l ++ [part]

/-- The location that a written path names by its words alone. -/
def resolve (cwd : Location) (written : Text) : Location :=
  (parts written).foldl step (if isAbsolute written then [] else cwd)

/-- The path from the root that a written path stands for by its words alone. -/
def absolute (cwd : Location) (written : Text) : Path :=
  ⟨if rootOf written = .doubleSlash then .doubleSlash else .slash, resolve cwd written⟩

end Path

def Location.render (l : Location) : Text := (Path.mk .slash l).render

end CSharpActions
