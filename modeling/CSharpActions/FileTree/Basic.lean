import CSharpActions.FileTree.Error
import CSharpActions.FileTree.Path
import CSharpActions.Lookup
import CSharpActions.Text.Utf8

/-!
# File trees

A file tree lists the directories and files below the root, which is always a directory. A path is
followed part by part, so that each part but the last must name a directory.
-/
namespace CSharpActions

open Text.Utf8 (Bytes)

inductive Node where
  | directory
  | file (content : Bytes)
deriving DecidableEq, Repr

structure FileTree where
  nodes : List (Location × Node) := []
deriving Repr

namespace FileTree

variable (t : FileTree)

def node? (l : Location) : Option Node := if l.isEmpty then some .directory else t.nodes.lookup l

/-- Puts a node at a location, in place of the one that is there. -/
def put (l : Location) (n : Node) : FileTree :=
  ⟨(l, n) :: t.nodes.filter fun e => e.1 ≠ l⟩

def remove (l : Location) : FileTree := ⟨t.nodes.filter fun e => e.1 ≠ l⟩

theorem node?_put {t : FileTree} {l : Location} (h : l ≠ []) (m : Location) (n : Node) :
    (t.put l n).node? m = if m = l then some n else t.node? m := by
  simp only [node?, put, Lookup.lookup_cons_ite, Lookup.lookup_filter_ne]
  grind

theorem node?_remove {t : FileTree} {l : Location} (h : l ≠ []) (m : Location) :
    (t.remove l).node? m = if m = l then none else t.node? m := by
  simp only [node?, remove, Lookup.lookup_filter_ne]
  grind

/-- The most bytes of a name. -/
def maxNameSize : Nat := 255

/-- The most bytes of a written path. -/
def maxPathSize : Nat := 4095

/-- Follows the parts of a path. A name that is too long is noticed in its directory only. -/
def walk (l : Location) : List Text → Except FileError.Kind Location
  | [] => if (t.node? l).isSome then .ok l else .error .notFound
  | part :: rest =>
    match t.node? l with
    | none => .error .notFound
    | some (.file _) => .error .notDirectory
    | some .directory =>
      if maxNameSize < Text.Utf8.size part then .error .nameTooLong
      else walk (Path.step l part) rest

/-- Why a text is not even asked for as a path: a half of a surrogate pair that stands for no byte
is noticed first. -/
def refusal? (path : Text) : Option FileError.Kind :=
  if path.any fun c => c.char?.isNone && !c.isByte then some .unencodable
  else if path.contains (.char '\x00') then some .nullByte
  else none

/-- Why a written path cannot be followed at all. -/
def objection? (path : Text) : Option FileError.Kind :=
  match refusal? path with
  | some kind => some kind
  | none =>
    if path.isEmpty then some .notFound
    else if maxPathSize < Text.Utf8.size path then some .nameTooLong
    else none

/-- Where the parts of a written path are followed from. -/
def startOf (cwd : Location) (path : Text) : Location := if Path.isAbsolute path then [] else cwd

/-- The location and node that a path leads to. -/
def stat (cwd : Location) (path : Text) : Except FileError.Kind (Location × Node) :=
  match objection? path with
  | some kind => .error kind
  | none =>
    match t.walk (startOf cwd path) (Path.parts path) with
    | .error e => .error e
    | .ok l =>
      match t.node? l with
      | some n => .ok (l, n)
      | none => .error .notFound

/-- What a path leads to, if it leads anywhere; only a name that is too long is a failure. -/
def find? (cwd : Location) (path : Text) : Except FileError (Option (Location × Node)) :=
  match t.stat cwd path with
  | .ok found => .ok (some found)
  | .error .nameTooLong => .error ⟨.nameTooLong, some path⟩
  | .error _ => .ok none

def isFile (cwd : Location) (path : Text) : Bool :=
  match t.stat cwd path with
  | .ok (_, .file _) => true
  | _ => false

def isDirectory (cwd : Location) (path : Text) : Bool :=
  match t.stat cwd path with
  | .ok (_, .directory) => true
  | _ => false

/-- Where a path leads to a file: the file's location and content. -/
def openFile (cwd : Location) (path : Text) : Except FileError (Location × Bytes) :=
  match t.stat cwd path with
  | .error kind => .error ⟨kind, some path⟩
  | .ok (_, .directory) => .error ⟨.isDirectory, some path⟩
  | .ok (l, .file content) => .ok (l, content)

def contentAt (cwd : Location) (path : Text) : Except FileError Bytes :=
  (t.openFile cwd path).map (·.2)

/-- The location at which a path creates an entry: its directory has to be there. -/
def placeFor (cwd : Location) (path : Text) : Except FileError.Kind Location :=
  match objection? path, (Path.parts path).reverse with
  | some kind, _ => .error kind
  | none, [] => .error .notFound
  | none, last :: above =>
    match t.walk (startOf cwd path) above.reverse with
    | .error e => .error e
    | .ok l =>
      match t.node? l with
      | some .directory =>
        if maxNameSize < Text.Utf8.size last then .error .nameTooLong
        else .ok (Path.step l last)
      | some (.file _) => .error .notDirectory
      | none => .error .notFound

/-- Writes a file, which may be new. -/
def store (cwd : Location) (path : Text) (content : Bytes) : Except FileError FileTree :=
  match t.placeFor cwd path with
  | .error kind => .error ⟨kind, some path⟩
  | .ok l =>
    match t.node? l with
    | some .directory => .error ⟨.isDirectory, some path⟩
    | _ => .ok (t.put l (.file content))

/-- Makes a directory if it is not there yet. -/
def makeDirectory (cwd : Location) (path : Text) : Except FileError FileTree :=
  match t.placeFor cwd path with
  | .error kind => .error ⟨kind, some path⟩
  | .ok l =>
    match t.node? l with
    | some .directory => .ok t
    | some (.file _) => .error ⟨.alreadyExists, some path⟩
    | none => .ok (t.put l .directory)

/-- Makes the directories of a location that are missing. -/
def makeDirectories (l : Location) : Except FileError FileTree :=
  (List.range (l.length + 1)).foldlM
    (fun t n =>
      match t.node? (l.take n) with
      | some .directory => .ok t
      | some (.file _) =>
        .error ⟨if n = l.length then .alreadyExists else .notDirectory, some l.render⟩
      | none => .ok (t.put (l.take n) .directory))
    t

/-- The names of the entries of a directory. -/
def entries (l : Location) : List (Text × Node) :=
  t.nodes.filterMap fun (at', n) =>
    if at'.dropLast = l then at'.getLast?.map (·, n) else none

/-- A location in a directory at which nothing is, with a name of the given shape. -/
def freshIn (dir : Location) (name : Nat → Text) : Location :=
  let candidates := (List.range (t.nodes.length + 1)).map fun n => dir ++ [name n]
  (candidates.find? fun l => (t.node? l).isNone).getD []

end FileTree

end CSharpActions
