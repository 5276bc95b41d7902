import CSharpActions.Text.Blank
import CSharpActions.Xml.Encoding

/-!
# Project files

The references and the root namespace of a C# project file. Namespaces of elements are ignored,
and a file that is not well formed, or whose root is not a project, declares nothing.
-/
namespace CSharpActions

structure PackageReference where
  name : Text
  version : Option Text
deriving DecidableEq, Repr

/-- What a project file declares. -/
structure ProjectFile where
  packages : List PackageReference := []
  /-- The projects that it refers to. -/
  projects : List Text := []
  rootNamespace : Option Text := none
deriving DecidableEq, Repr

namespace ProjectFile

open Xml (Element)

/-- The items of a kind that include something, over all item groups in order. -/
def items (kind : Text) (project : Element) : List (Text × Element) :=
  (project.childrenNamed "ItemGroup").flatMap fun group =>
    (group.childrenNamed kind).filterMap fun e =>
      match e.attribute? "Include" with
      | some name => if name.isEmpty then none else some (name, e)
      | none => none

/-- The version of an item: its attribute, or else its first nested element. -/
def version (e : Element) : Option Text :=
  match e.attribute? "Version" with
  | some v => some v
  | none =>
    match e.childrenNamed "Version" with
    | [] => none
    | first :: _ => if first.text.isEmpty then none else some (Text.trim first.text)

def packagesOf (project : Element) : List PackageReference :=
  (items "PackageReference" project).map fun (name, e) => ⟨name, version e⟩

def projectsOf (project : Element) : List Text := (items "ProjectReference" project).map (·.1)

/-- The first root namespace of all property groups, if it is not blank. -/
def rootNamespaceOf (project : Element) : Option Text :=
  match (project.childrenNamed "PropertyGroup").flatMap (·.childrenNamed "RootNamespace") with
  | [] => none
  | first :: _ =>
    let name := Text.trim first.text
    if name.isEmpty then none else some name

def ofProject (project : Element) : ProjectFile :=
  ⟨packagesOf project, projectsOf project, rootNamespaceOf project⟩

/-- What the document with this root declares. -/
def ofRoot (root : Element) : ProjectFile :=
  if root.localName = "Project" then ofProject root else {}

/-- Reads a project file; only a text that is not well formed is known to declare nothing. -/
def read (parser : Xml.Parser) (text : Text) : Except Xml.Failure ProjectFile :=
  match parser text with
  | .ok root => .ok (ofRoot root)
  | .error .malformed => .ok {}
  | .error e => .error e

end ProjectFile

end CSharpActions
