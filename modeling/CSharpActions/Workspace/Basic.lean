import CSharpActions.Document
import CSharpActions.FileTree.Find
import CSharpActions.Report.Failure
import CSharpActions.Text.Newline
import CSharpActions.Workspace.Platform

/-!
# Workspaces

A workspace is what a run of the program sees of the world: the files, the current directory, the
environment variables, which file operations fail, and the platform.
-/
namespace CSharpActions

/-- The file operations that fail, each with its failure. What fails when a file is read depends on
the path that is asked for. -/
structure Faults where
  /-- Whether there is no permission to read what the path leads to. -/
  unreadable : Text → Bool := fun _ => false
  /-- Opening the file of a document. -/
  openSource : Text → Option FileError := fun _ => none
  /-- Reading a project or configuration file. -/
  readText : Text → Option FileError := fun _ => none
  /-- Creating a temporary file. -/
  createTemp : Option FileError := none
  /-- Writing a temporary file. -/
  writeTemp : Option FileError := none
  /-- Putting a temporary file in place of another file. -/
  replace : Option FileError := none

structure Workspace where
  tree : FileTree := {}
  cwd : Location := []
  env : List (Text × Text) := []
  faults : Faults := {}
  platform : Platform := {}

namespace Workspace

variable (w : Workspace)

/-- The location that a path names by its words alone. -/
def locate (path : Text) : Location := Path.resolve w.cwd path

/-- The path from the root that a path stands for by its words alone. -/
def absolute (path : Text) : Path := Path.absolute w.cwd path

/-- The text of a document; faulty bytes are replaced, and nothing else is changed. -/
def readSource (path : Text) : Except FileError Text :=
  match FileTree.refusal? path, w.faults.openSource path with
  | some kind, _ => .error ⟨kind, some path⟩
  | none, some e => .error e
  | none, none => (w.tree.contentAt w.cwd path).map Text.Utf8.decodeLossy

/-- The bytes of a project or configuration file. -/
def readRaw (path : Text) : Except FileError Text.Utf8.Bytes :=
  match w.faults.readText path with
  | some e => .error e
  | none => w.tree.contentAt w.cwd path

/-- The text of a project file, without a byte order mark and with plain line feeds. -/
def readProject (path : Text) : Except FileError Text :=
  (w.readRaw path).map fun bytes =>
    Text.unifyNewlines (Text.Utf8.dropMark (Text.Utf8.decodeLossy bytes))

/-- The document of a source file. -/
def loadDocument (path : Text) : Except Report.Failure Document :=
  if w.tree.isFile w.cwd path then
    match w.readSource path with
    | .ok text => .ok { text, path := some path }
    | .error _ => .error (.fileMissing path)
  else .error (.fileMissing path)

/-- The nearest location at or above the given one, the root left out, that holds a repository. -/
def repositoryAbove (l : Location) : Except FileError (Option Location) :=
  if _h : l = [] then .ok none
  else
    match w.tree.find? [] (Location.render (l ++ [".git".text])) with
    | .error e => .error e
    | .ok (some _) => .ok (some l)
    | .ok none => repositoryAbove l.parent
termination_by l.length
decreasing_by
  have := List.length_pos_iff.2 _h
  simp only [Location.parent, List.length_dropLast]; omega

/-- The directory of a location: the location itself unless a file is there. -/
def directoryOf (l : Location) : Except FileError Location :=
  (w.tree.find? [] l.render).map fun found =>
    match found with
    | some (_, .file _) => l.parent
    | _ => l

/-- Whether a path leads to something that there is no permission to read. -/
def isUnreadable (path : Text) : Bool :=
  (w.tree.stat w.cwd path).toBool && w.faults.unreadable path

/-- The root of the project around a path: the repository that holds it, or else its directory. The
parts of the path are looked at one after another. -/
def projectRoot (start : Text) : Except FileError Location :=
  match (Path.parts start).findSome? FileTree.refusal? with
  | some kind => .error ⟨kind, some start⟩
  | none =>
    match w.directoryOf (w.locate start) with
    | .error e => .error e
    | .ok directory => (w.repositoryAbove directory).map (·.getD directory)

end Workspace

end CSharpActions
