import CSharpActions.Action.Apply
import CSharpActions.Workspace.Basic

/-!
# Writing documents back

A batch is written only if the file still has the text of the snapshot. The new text goes to a
temporary file that then takes the place of the file, so that no reader sees half of it.
-/
namespace CSharpActions.Workspace

/-- Why a file was not replaced. -/
inductive ReplaceError where
  /-- No temporary file could be made. -/
  | create (cause : FileError)
  /-- The temporary file could not be written or put in place; it is gone again. -/
  | write (cause : FileError)
  /-- The text cannot be encoded; the temporary file stays, and is empty. -/
  | unencodable
deriving DecidableEq, Repr

def tempName (n : Nat) : Text := ".sharpkit-" ++ Text.ofNat n ++ ".tmp"

/-- The bytes that the path of a temporary file has beyond that of its directory: a slash, and a name
with eight characters in place of the number. -/
def tempSize : Nat := 23

/-- The path of a temporary file in a directory is not too long. -/
def HoldsTemp (directory : Path) : Prop :=
  Text.Utf8.size directory.render + tempSize ≤ FileTree.maxPathSize

instance : DecidablePred HoldsTemp := fun _ => inferInstanceAs (Decidable (_ ≤ _))

/-- Why no temporary file can be made in a directory. -/
def tempFault? (faults : Faults) (directory : Path) : Option FileError :=
  match faults.createTemp with
  | some e => some e
  | none => if HoldsTemp directory then none else some ⟨.nameTooLong, none⟩

/-- Replaces the text of a file by way of a temporary file beside it. -/
def replaceFile (faults : Faults) (t : FileTree) (path : Path) (text : Text) :
    Except ReplaceError Unit × FileTree :=
  match tempFault? faults path.parent with
  | some e => (.error (.create e), t)
  | none =>
    let target : Location := path.names
    let temp := t.freshIn target.parent tempName
    let t := t.put temp (.file [])
    match faults.writeTemp, Text.Utf8.encode? text with
    | _, none => (.error .unencodable, t)
    | some e, some _ => (.error (.write e), t.remove temp)
    | none, some content =>
      let t := t.put temp (.file content)
      match faults.replace with
      | some e => (.error (.write e), t.remove temp)
      | none => (.ok (), (t.remove temp).put target (.file content))

/-- Commits a batch to the file of a document. -/
def writeEdits (cwd : Location) (faults : Faults) (d : Document) (edits : List Edit)
    (t : FileTree) (room : Text.Room := none) : Except SinkError Document × FileTree :=
  match d.path with
  | none => (.error (.rejected .noPath), t)
  | some path =>
    if path.isEmpty then (.error (.rejected .noPath), t)
    else
      let w : Workspace := { tree := t, cwd, faults }
      match w.readSource path with
      | .error e =>
        if e.kind.isRefusal then (.error (.system e), t)
        else (.error (.rejected (.unreadable path e)), t)
      | .ok current =>
        if current ≠ d.text then (.error (.rejected (.changed path)), t)
        else
          match d.edited edits room with
          | .error e => (.error e, t)
          | .ok text =>
            match replaceFile faults t (w.absolute path) text with
            | (.error (.create e), t) => (.error (.system e), t)
            | (.error (.write e), t) => (.error (.rejected (.unwritable path e)), t)
            | (.error .unencodable, t) => (.error .unencodable, t)
            | (.ok (), t) => (.ok (d.withText text), t)

/-- The sink that writes to files. -/
def fileSink (cwd : Location) (faults : Faults) (room : Text.Room := none) : Sink FileTree where
  apply d edits t := writeEdits cwd faults d edits t room

end CSharpActions.Workspace
