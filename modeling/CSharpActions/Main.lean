import CSharpActions.CommandLine.Run
import CSharpActions.Report.Clock
import CSharpActions.Workspace.Snapshot
import Std.Time.DateTime.Timestamp

/-!
# The program

Reads what the command line may look at, runs the command on it, and writes what has changed.
-/
open CSharpActions

namespace CSharpActions.Program

def pathText (l : Location) : String := l.render.asString

/-- What stands at a location; what cannot be read counts as missing. -/
def readNode (l : Location) : IO (Option Node) := do
  try
    let path ← IO.FS.realPath (pathText l)
    if ← path.isDir then return some .directory
    else return some (.file (← IO.FS.readBinFile path).toList)
  catch _ => return none

/-- Adds what stands at a location. -/
def loadNode (t : FileTree) (l : Location) : IO FileTree := do
  match ← readNode l with
  | some n => return t.put l n
  | none => return t

/-- Adds the relevant entries of a directory. -/
def loadEntries (t : FileTree) (l : Location) : IO FileTree := do
  if t.node? l ≠ some .directory then return t
  try
    let entries ← (← IO.FS.realPath (pathText l)).readDir
    let names := (entries.toList.map fun e => e.fileName.text).filter Workspace.isRelevantName
    let t ← (names.map fun n => l ++ [n]).foldlM loadNode t
    loadNode t (l ++ [".sharpkit".text, "config.json".text])
  catch _ => return t

def loadTree (locations : List Location) : IO FileTree := do
  let t ← locations.foldlM loadNode {}
  locations.foldlM loadEntries t

/-- Writes a file by way of a temporary file beside it. -/
def replaceFile (l : Location) (content : Text.Utf8.Bytes) : IO Unit := do
  let temp := pathText (l.parent ++ [Workspace.tempName 0])
  IO.FS.writeBinFile temp (ByteArray.mk content.toArray)
  IO.FS.rename temp (pathText l)

def writeChanges (before after : FileTree) : IO Unit :=
  after.nodes.reverse.forM fun (l, n) => do
    if before.node? l ≠ some n then
      match n with
      | .directory => IO.FS.createDirAll (pathText l)
      | .file content => replaceFile l content

def environment : IO (List (Text × Text)) := do
  let values ← Setting.all.mapM fun s => do
    let value ← IO.getEnv s.environmentName.asString
    return value.toList.map fun v => (s.environmentName, v.text)
  return values.flatten

def now : IO Text := do
  let moment ← Std.Time.Timestamp.now
  return Report.momentText moment.toSecondsSinceUnixEpoch.val.toNat

end CSharpActions.Program

open CSharpActions.Program in
def main (args : List String) : IO UInt32 := do
  let cwd := Path.resolve [] (← IO.currentDir).toString.text
  let args := args.map String.text
  let tree ← loadTree (Workspace.locationsFor cwd args)
  let run := CommandLine.run { tree, cwd, env := ← environment } CommandLine.Invocation.read
    (← now) args
  writeChanges tree run.tree
  IO.print run.stdout.asString
  IO.eprint run.stderr.asString
  match run.result with
  | .ok code => return code.toNat.toUInt32
  | .error e =>
    IO.eprintln ("Error: " ++ e.message.asString)
    return e.exitCode.toNat.toUInt32
