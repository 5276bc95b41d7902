import CSharpActions.Text.Blank
import CSharpActions.Text.Integer
import CSharpActions.Text.Size
import CSharpActions.Text.Word

/-!
# Documents

A document is an immutable snapshot of a source file. Its lines are the stretches between line
feeds, each without one carriage return at its end. Positions count lines and characters from
zero and need not lie inside the document; offsets always do.
-/
namespace CSharpActions

structure Position where
  line : Int
  character : Int := 0
deriving DecidableEq, Repr

structure Range where
  start : Position
  stop : Position
deriving DecidableEq, Repr

structure Document where
  text : Text
  path : Option Text := none
deriving DecidableEq, Repr

/-- A number that none of the lines has. -/
structure LineError where
  number : Int
  count : Nat
deriving DecidableEq, Repr

def LineError.message (e : LineError) : Except Text.IntegerError Text :=
  (Text.writeInt e.number).map fun number =>
    "line " ++ number ++ " out of range (0.." ++ Text.ofInt (e.count - 1) ++ ")"

namespace Document

/-- A line without the carriage return of its CR LF ending. -/
def dropReturn (line : Text) : Text :=
  if line.getLast? = some '\r' then line.dropLast else line

def linesOf (t : Text) : List Text := (Text.splitOn '\n' t).map dropReturn

/-- The offsets that follow the line feeds of a text whose first character has the given offset. -/
def startsAfter (offset : Nat) : Text → List Nat
  | [] => []
  | c :: r => if c = '\n' then (offset + 1) :: startsAfter (offset + 1) r
      else startsAfter (offset + 1) r

/-- The offset of the first character of each line. -/
def lineStarts (t : Text) : List Nat := 0 :: startsAfter 0 t

variable (d : Document)

def lines : List Text := linesOf d.text

def lineCount : Nat := d.lines.length

/-- CR LF if it occurs anywhere, else LF. -/
def eol : Text := if Text.occursIn ['\r', '\n'] d.text then ['\r', '\n'] else ['\n']

/-- The line with the given number, if the document has it. -/
def line? (n : Int) : Option Text := if n < 0 then none else d.lines[n.toNat]?

/-- One of the given lines, by a number that some line has to have. -/
def lineIn (lines : List Text) (n : Int) : Except LineError Text :=
  match if n < 0 then none else lines[n.toNat]? with
  | some line => .ok line
  | none => .error ⟨n, lines.length⟩

def lineAt (n : Int) : Except LineError Text := lineIn d.lines n

/-- Moves a position into a text with the given lines. -/
def clampTo (lines : List Text) (p : Position) : Position :=
  if p.line < 0 then ⟨0, 0⟩
  else
    match lines[p.line.toNat]? with
    | some l => ⟨p.line, max 0 (min p.character l.length)⟩
    | none => ⟨lines.length - 1, ((lines.getLast?).getD []).length⟩

def clamp (p : Position) : Position := clampTo d.lines p

def offsetWith (lines : List Text) (starts : List Nat) (p : Position) : Nat :=
  let q := clampTo lines p
  starts.getD q.line.toNat 0 + q.character.toNat

/-- The offset of a position after moving it into the document. -/
def offsetAt (p : Position) : Nat := offsetWith d.lines (lineStarts d.text) p

def slice (t : Text) (start stop : Nat) : Text := (t.drop start).take (stop - start)

def textIn (r : Range) : Text := slice d.text (d.offsetAt r.start) (d.offsetAt r.stop)

/-- The word that the position touches, its end included. -/
def wordRangeAt (p : Position) : Option Range :=
  (d.line? p.line).bind fun l =>
    ((Text.wordSpans 0 l).find? fun s => s.start ≤ p.character && p.character ≤ s.stop).map
      fun s => ⟨⟨p.line, s.start⟩, ⟨p.line, s.stop⟩⟩

def isIndent (c : CodePoint) : Bool := c = ' ' || c = '\t'

/-- The leading spaces and tabs of a line. -/
def indentOf (line : Text) : Text := line.takeWhile isIndent

def isBlankLine (line : Text) : Bool := line.all Text.isBlank

def spaces (n : Int) : Text := Text.copies n.toNat ' '

/-- Whether more lines begin with a tab than with a space. -/
def prefersTabs (lines : List Text) : Bool :=
  let startingWith (c : Char) := lines.countP fun l => l.head? = some (.char c)
  startingWith ' ' < startingWith '\t'

def unitFor (lines : List Text) (tabSize : Int) : Text :=
  if prefersTabs lines then ['\t'] else spaces tabSize

/-- A tab if more lines begin with a tab than with a space, else the given number of spaces. -/
def indentUnit (tabSize : Int) : Text := unitFor d.lines tabSize

/-- What keeps the unit of indentation from being built. -/
def unitError? (room : Text.Room) (tabSize : Int) : Option Text.SizeError :=
  if prefersTabs d.lines then none else Text.copiesError? room 1 tabSize

@[simp]
theorem unitError?_none (tabSize : Int) : d.unitError? none tabSize = none := by
  simp [unitError?]

/-- The same file with another text. -/
def withText (t : Text) : Document := { d with text := t }

end Document

end CSharpActions
