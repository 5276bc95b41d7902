import CSharpActions.Text.Quoted
import CSharpActions.Text.Decimal

/-!
# Failures of file operations
-/
namespace CSharpActions

namespace FileError

inductive Kind where
  | notFound
  | denied
  | alreadyExists
  | notDirectory
  | isDirectory
  | noSpace
  | nameTooLong
  /-- No name can hold the character with code point zero. -/
  | nullByte
  /-- The path has a code point that no name of a file is encoded with. -/
  | unencodable
deriving DecidableEq, Repr

/-- Whether a path is refused before any operation. Nothing that watches operations notices that. -/
def Kind.isRefusal : Kind → Bool
  | .nullByte => true
  | .unencodable => true
  | _ => false

/-- The number of the failure. -/
def Kind.code : Kind → Nat
  | .notFound => 2
  | .denied => 13
  | .alreadyExists => 17
  | .notDirectory => 20
  | .isDirectory => 21
  | .nullByte => 22
  | .unencodable => 22
  | .noSpace => 28
  | .nameTooLong => 36

def Kind.reason : Kind → Text
  | .notFound => "No such file or directory"
  | .denied => "Permission denied"
  | .alreadyExists => "File exists"
  | .notDirectory => "Not a directory"
  | .isDirectory => "Is a directory"
  | .nullByte => "embedded null byte"
  | .unencodable => Text.unencodableMessage
  | .noSpace => "No space left on device"
  | .nameTooLong => "File name too long"

end FileError

/-- A failed file operation, with the path that it was asked for if that is known. -/
structure FileError where
  kind : FileError.Kind
  path : Option Text := none
deriving DecidableEq, Repr

/-- What is said of a failure. A path that is refused before any operation has no number in its
message. -/
def FileError.message (e : FileError) : Text :=
  if e.kind.isRefusal then e.kind.reason
  else
    "[Errno " ++ Text.ofNat e.kind.code ++ "] " ++ e.kind.reason ++
      match e.path with
      | some p => ": " ++ Text.quoted p
      | none => []

end CSharpActions
