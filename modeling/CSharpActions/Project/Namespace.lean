import CSharpActions.Project.Manifest
import CSharpActions.Project.ProjectFile
import CSharpActions.Workspace.Basic

/-!
# Namespaces of source files

The namespace of a file is a root namespace and one segment for each directory below the place
where the root namespace is declared. The nearest project file comes first, then the nearest
manifest, and at last the directories alone. The file need not exist.
-/
namespace CSharpActions

structure NamespaceQuery where
  file : Path
  /-- Where directories are counted from if there is no project. -/
  root : Option Path := none
deriving DecidableEq, Repr

inductive NamespaceError where
  | file (e : FileError)
  /-- The project file cannot be handed over to be read. -/
  | xml (e : Xml.Failure)
  /-- The manifest exceeds a bound of JSON texts. -/
  | limit (l : Json.Limit)
deriving DecidableEq, Repr

def NamespaceError.message : NamespaceError → Text
  | .file e => e.message
  | .xml e => e.message
  | .limit l => l.message

namespace NamespaceQuery

/-- All names that end with the extension of project files. -/
def projectPattern : List Pattern.Component := [.wild (Pattern.ofName "*.csproj")]

def manifestPattern : List Pattern.Component := [.exact "project.json"]

/-- A query for a path; an empty root is none. -/
def ofPaths (w : Workspace) (path : Text) (root : Option Text) : NamespaceQuery :=
  { file := w.absolute path
    root := root.bind fun r => if r.isEmpty then none else some (w.absolute r) }

variable (q : NamespaceQuery) (w : Workspace)

def directory : Path := q.file.parent

/-- A root namespace followed by a segment for each directory below the depth of a path. -/
def full (root : Text) (base : Path) : Text :=
  root ++ (q.directory.names.drop base.names.length).flatMap (.char '.' :: ·)

/-- The namespace by the nearest project file, if that declares one. -/
def fromProject : Except NamespaceError (Option Text) :=
  match w.tree.findUp projectPattern q.directory with
  | .error e => .error (.file e)
  | .ok none => .ok none
  | .ok (some file) =>
    match w.readProject file.render with
    | .error _ => .ok none
    | .ok text =>
      match ProjectFile.read w.platform.parseXml text with
      | .error e => .error (.xml e)
      | .ok project => .ok (project.rootNamespace.map (q.full · file.parent))

/-- The namespace by the nearest manifest, if that declares one. -/
def fromManifest : Except NamespaceError (Option Text) :=
  match w.tree.findUp manifestPattern q.directory with
  | .error e => .error (.file e)
  | .ok none => .ok none
  | .ok (some file) =>
    match w.readProject file.render with
    | .error _ => .ok none
    | .ok text =>
      match Manifest.rootNamespace w.platform.jsonNesting text with
      | .error l => .error (.limit l)
      | .ok n => .ok (n.map (q.full · file.parent))

/-- The directory from which the directories alone are counted. -/
def rootPath : Except FileError Path :=
  match w.tree.findUp projectPattern q.directory, w.tree.findUp manifestPattern q.directory with
  | .error e, _ => .error e
  | .ok (some file), _ => .ok file.parent.parent
  | .ok none, .error e => .error e
  | .ok none, .ok (some file) => .ok file.parent.parent
  | .ok none, .ok none => .ok (q.root.getD { q.directory with names := [] })

/-- The namespace by the directories alone. -/
def fromLayout : Except FileError Text := (q.rootPath w).map fun root => (q.full [] root).drop 1

def answer : Except NamespaceError Text :=
  match q.fromProject w, q.fromManifest w, q.fromLayout w with
  | .error e, _, _ => .error e
  | .ok (some n), _, _ => .ok n
  | .ok none, .error e, _ => .error e
  | .ok none, .ok (some n), _ => .ok n
  | .ok none, .ok none, .error e => .error (.file e)
  | .ok none, .ok none, .ok n => .ok n

end NamespaceQuery

end CSharpActions
