import CSharpActions.Project.ProjectFile
import CSharpActions.Report.Envelope
import CSharpActions.Report.Table

/-!
# Reports on references
-/
namespace CSharpActions

def PackageReference.toJson (p : PackageReference) : Json :=
  .obj [("include", .str p.name),
    ("version", match p.version with | some v => .str v | none => .null)]

namespace Report

/-- The references that a project file declares, as JSON; `path` is the path of the file. -/
def referencesJson (timestamp path : Text) (file : ProjectFile) : Json :=
  envelope timestamp "refs"
    [("packages", .int file.packages.length), ("projects", .int file.projects.length)]
    [("project", .str path),
      ("root_namespace", match file.rootNamespace with | some n => .str n | none => .null),
      ("package_refs", .arr (file.packages.map (·.toJson))),
      ("project_refs", .arr (file.projects.map fun n => .obj [("include", .str n)]))]

/-- The references that a project file declares, as two tables. -/
def referencesText (path : Text) (file : ProjectFile) : Except RowTooLong Text :=
  let packages := file.packages.map fun p => [p.name, p.version.getD []]
  let projects := file.projects.map fun n => [n]
  match table ["package", "version"] packages, table ["project"] projects with
  | .ok packages, .ok projects =>
    .ok ("Project: " ++ path ++ "\n\nPackages:\n" ++ packages ++ "\n\nProjects:\n" ++
      projects ++ "\n")
  | .error e, _ => .error e
  | _, .error e => .error e

end Report

end CSharpActions
