import CSharpActions.FileTree.Find

/-!
# What a run may look at

A command line reads only the files that its arguments name, and the project, repository and
configuration files of the directories at or above them.
-/
namespace CSharpActions.Workspace

/-- The paths that an argument may contain: itself, the value after an equals sign, and what
follows a short option. -/
def pathsIn (arg : Text) : List Text :=
  arg :: ((arg.dropWhile (· ≠ .char '=')).drop 1) :: [arg.drop 2]

/-- A location and all locations above it, the root first. -/
def locationsTo (l : Location) : List Location :=
  (List.range (l.length + 1)).map fun n => l.take n

/-- The locations at which a command line may look for files and directories. -/
def locationsFor (cwd : Location) (args : List Text) : List Location :=
  ((cwd :: (args.flatMap pathsIn).map (Path.resolve cwd)).flatMap locationsTo).eraseDups

/-- The names that matter in a directory. -/
def isRelevantName (name : Text) : Bool :=
  name = ".git".text || name = ".sharpkit".text || name = "project.json".text ||
    Pattern.fits "*.csproj" name

end CSharpActions.Workspace
