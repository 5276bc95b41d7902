import CSharpActions.Edit
import CSharpActions.Layout.Code

/-!
# Indentation by braces

Every line is indented by one unit per open brace, and the lines under a case label by one more. A
line that continues a statement moves with the line that it continues. Blank lines, preprocessor
lines and lines that begin inside a comment or a literal stay as they are.
-/
namespace CSharpActions.Layout

/-- What the lines so far say about the next one. -/
structure State where
  depth : Nat := 0
  /-- Open round and square brackets. -/
  parens : Nat := 0
  /-- How far the last statement moved. -/
  shift : Int := 0
  carry : Carry := .code
  /-- The depths of the case labels that apply, the innermost first. -/
  labels : List Nat := []
  /-- The code of the last line that had any. -/
  previous : Text := []
deriving DecidableEq, Repr

/-- A label of a switch section: the word case and anything, or the word default, and a colon at
the end. -/
def isLabel (code : Text) : Bool :=
  code.getLast? = some ':' &&
    (match Text.after? "case" code with
      | some (c :: _) => !Text.isWord c
      | _ => false) ||
    match Text.after? "default" code with
    | some r => r.dropWhile Text.isBlank = [.char ':']
    | none => false

/-- The last characters of a complete statement. -/
def endsStatement (code : Text) : Bool :=
  match code.getLast? with
  | none => true
  | some c => c = ';' || c = '{' || c = '}' || c = ',' || c = ':' || c = ']'

def closesBlock (code : Text) : Bool := code.head? = some '}'

def opensBlock (code : Text) : Bool := code.head? = some '{'

/-- Where a line goes. -/
inductive Placement where
  /-- The line stays. -/
  | keep
  /-- The line begins with this many units. -/
  | level (n : Nat)
  /-- The line begins with this many copies of the first character of the unit. -/
  | column (n : Nat)
deriving DecidableEq, Repr

namespace State

/-- Whether a line with this code continues the statement before it. -/
def continues (s : State) (code : Text) : Bool :=
  !code.isEmpty && !opensBlock code && !closesBlock code &&
    (0 < s.parens || !endsStatement s.previous)

def levelOf (s : State) (code : Text) : Nat :=
  if closesBlock code then s.depth - 1
  else if s.labels.head? = some s.depth && !isLabel code then s.depth + 1
  else s.depth

/-- Whether a line keeps its indentation whatever stands around it. -/
def fixed (s : State) (line : Text) : Bool :=
  s.carry ≠ .code || (Text.trim line).isEmpty || (Text.trim line).head? = some '#'

/-- The placement of a line with the given trimmed code. -/
def place (s : State) (code line : Text) : Placement :=
  if s.fixed line then .keep
  else if s.continues code then
    .column ((Document.indentOf line).length + s.shift).toNat
  else .level (s.levelOf code)

/-- How far the statement on a line moves. -/
def nextShift (unitSize : Nat) (s : State) (code line : Text) : Int :=
  match s.place code line with
  | .level n =>
    if code.isEmpty then s.shift
    else (n * unitSize : Nat) - ((Document.indentOf line).length : Int)
  | _ => s.shift

def nextDepth (s : State) (code : Text) : Nat :=
  s.depth + code.count (.char '{') - code.count (.char '}')

def nextLabels (s : State) (code line : Text) : List Nat :=
  let labels :=
    if !s.fixed line && isLabel code && s.labels.head? ≠ some s.depth then s.depth :: s.labels
    else s.labels
  labels.dropWhile (s.nextDepth code < ·)

def nextParens (s : State) (code : Text) : Nat :=
  s.parens + code.count (.char '(') + code.count (.char '[') -
    (code.count (.char ')') + code.count (.char ']'))

/-- The state after a line. -/
def next (unitSize : Nat) (s : State) (line : Text) : State :=
  let (stripped, carry) := stripLine s.carry line
  let code := Text.trim stripped
  { depth := s.nextDepth code
    parens := s.nextParens code
    shift := s.nextShift unitSize code line
    carry
    labels := s.nextLabels code line
    previous := if code.isEmpty then s.previous else code }

/-- The placement of the next line. -/
def placeLine (s : State) (line : Text) : Placement :=
  s.place (Text.trim (stripLine s.carry line).1) line

end State

/-- The placements of the lines that follow a state. -/
def placements (unitSize : Nat) (s : State) : List Text → List Placement
  | [] => []
  | l :: r => s.placeLine l :: placements unitSize (s.next unitSize l) r

/-- Why a document is not indented. -/
inductive Failure where
  /-- The unit of indentation is empty, and a line continues a statement. -/
  | emptyUnit
  | size (e : Text.SizeError)
deriving DecidableEq, Repr

def Failure.message : Failure → Text
  | .emptyUnit => "string index out of range"
  | .size e => e.message

/-- The new indentation of a line. -/
def Placement.indent (unit line : Text) : Placement → Except Failure Text
  | .keep => .ok (Document.indentOf line)
  | .level n => .ok (List.replicate n unit).flatten
  | .column n =>
    match unit with
    | [] => .error .emptyUnit
    | c :: _ => .ok (Text.copies n c)

/-- What keeps the new indentation of a line from being built. -/
def Placement.sizeError? (room : Text.Room) (unitSize : Nat) : Placement → Option Text.SizeError
  | .keep => none
  | .level n => Text.copiesError? room unitSize n
  | .column n => if unitSize = 0 then none else Text.copiesError? room 1 n

/-- The edit that gives line `n` its new indentation, if that differs from the old one. -/
def indentEdit? (n : Nat) (line new : Text) : Option Edit :=
  let old := Document.indentOf line
  if new = old then none else some ⟨⟨⟨n, 0⟩, ⟨n, old.length⟩⟩, new⟩

/-- The edits for the lines from number `n` on. -/
def editsFrom (unit : Text) (n : Nat) (s : State) : List Text → Except Failure (List Edit)
  | [] => .ok []
  | l :: r =>
    match (s.placeLine l).indent unit l with
    | .error e => .error e
    | .ok new => (editsFrom unit (n + 1) (s.next unit.length l) r).map
        ((indentEdit? n l new).toList ++ ·)

/-- What keeps the unit or one of the indentations from being built. -/
def sizeError? (room : Text.Room) (d : Document) (tabSize : Int) : Option Text.SizeError :=
  match d.unitError? room tabSize with
  | some e => some e
  | none =>
    let unitSize := (d.indentUnit tabSize).length
    (placements unitSize {} d.lines).findSome? (·.sizeError? room unitSize)

/-- The edits that indent a document. -/
def format (d : Document) (tabSize : Int) (room : Text.Room := none) :
    Except Failure (List Edit) :=
  match sizeError? room d tabSize with
  | some e => .error (.size e)
  | none => editsFrom (d.indentUnit tabSize) 0 {} d.lines

@[simp]
theorem Placement.sizeError?_none (unitSize : Nat) (p : Placement) :
    p.sizeError? none unitSize = none := by
  cases p <;> simp [sizeError?]

@[simp]
theorem sizeError?_none (d : Document) (tabSize : Int) : sizeError? none d tabSize = none := by
  simp [sizeError?]

theorem format_eq_editsFrom (d : Document) (tabSize : Int) :
    format d tabSize = editsFrom (d.indentUnit tabSize) 0 {} d.lines := by
  simp only [format, sizeError?_none]

end CSharpActions.Layout
