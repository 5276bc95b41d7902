import CSharpActions.Document

/-!
# Edits

An edit replaces a range of a document by new text; an empty range makes it an insertion. The
edits of a batch all refer to the same snapshot, and insertions at one offset appear in batch
order.
-/
namespace CSharpActions

structure Edit where
  range : Range
  newText : Text
deriving DecidableEq, Repr

/-- An edit whose range ends before it starts. -/
structure EditError where
  range : Range
deriving DecidableEq, Repr

/-- An edit with its range resolved to offsets. -/
structure Splice where
  start : Nat
  stop : Nat
  newText : Text
deriving DecidableEq, Repr

namespace Edit

def insert (p : Position) (t : Text) : Edit := ⟨⟨p, p⟩, t⟩

def resolveWith (lines : List Text) (starts : List Nat) (e : Edit) : Except EditError Splice :=
  let start := Document.offsetWith lines starts e.range.start
  let stop := Document.offsetWith lines starts e.range.stop
  if stop < start then .error ⟨e.range⟩ else .ok ⟨start, stop, e.newText⟩

/-- Resolves a batch against the snapshot; the first faulty edit in batch order is reported. -/
def resolveAll (d : Document) (edits : List Edit) : Except EditError (List Splice) :=
  let lines := d.lines
  let starts := Document.lineStarts d.text
  edits.mapM (resolveWith lines starts)

end Edit

namespace Splice

def applyTo (s : Splice) (t : Text) : Text := t.take s.start ++ s.newText ++ t.drop s.stop

/-- Applies the splices from the last start to the first; equal starts keep their order. -/
def applyAll (splices : List Splice) (t : Text) : Text :=
  (splices.mergeSort fun a b => a.start ≤ b.start).foldr applyTo t

/-- The length of a text of the given length after the splice. -/
def sizeAfter (s : Splice) (size : Nat) : Nat :=
  min s.start size + s.newText.length + (size - s.stop)

/-- The lengths to which a text of the given length comes while the splices are applied, from the
last one to the first; the length after all of them stands first. -/
def sizes (size : Nat) : List Splice → List Nat
  | [] => []
  | s :: r =>
    match sizes size r with
    | [] => [s.sizeAfter size]
    | n :: ns => s.sizeAfter n :: n :: ns

end Splice

def Document.applyEdits (d : Document) (edits : List Edit) : Except EditError Text :=
  (Edit.resolveAll d edits).map fun splices => Splice.applyAll splices d.text

/-- What keeps the text after a batch, or one on the way there, from being built. -/
def Document.editsError? (d : Document) (room : Text.Room) (edits : List Edit) :
    Option Text.SizeError :=
  (Edit.resolveAll d edits).toOption.bind fun splices =>
    let sorted := splices.mergeSort fun a b => a.start ≤ b.start
    (Splice.sizes d.text.length sorted).reverse.findSome? (Text.sizeError? room)

@[simp]
theorem Document.editsError?_none (d : Document) (edits : List Edit) :
    d.editsError? none edits = none := by
  simp [editsError?, Option.bind_eq_none_iff]

def Position.written (p : Position) : Except Text.IntegerError Text :=
  match Text.writeInt p.line, Text.writeInt p.character with
  | .ok line, .ok character =>
    .ok ("Position(line=" ++ line ++ ", character=" ++ character ++ ")")
  | .error e, _ => .error e
  | _, .error e => .error e

/-- What is said of the edit; a number that cannot be written takes the place of that. -/
def EditError.message (e : EditError) : Text :=
  match e.range.start.written, e.range.stop.written with
  | .ok start, .ok stop =>
    "edit range ends before it starts: Range(start=" ++ start ++ ", end=" ++ stop ++ ")"
  | .error e, _ => e.message
  | _, .error e => e.message

end CSharpActions
