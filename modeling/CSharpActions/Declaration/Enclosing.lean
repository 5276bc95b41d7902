import CSharpActions.Document
import CSharpActions.Declaration.Property

/-!
# Around the cursor

Three searches over the lines near a position: the class declared nearest above, the line after
the opening brace of a body, and a blank line in front of a member. None of them looks at nesting.
-/
namespace CSharpActions.Document

variable (d : Document)

/-- How many lines the searches around a member look at, the line of the cursor included. -/
def scanLines : Nat := 5

/-- The last class declared on one of the first `n` lines. -/
def lastClass (lines : List Text) : Nat → Option ClassDecl
  | 0 => none
  | n + 1 =>
    match (lines[n]?).bind fun l => ClassDecl.find? l n with
    | some c => some c
    | none => lastClass lines n

/-- The class declared nearest above a line, the line included. -/
def enclosingClass (line : Int) : Option ClassDecl :=
  lastClass d.lines (min (line + 1) d.lineCount).toNat

/-- The start of the line after the first opening brace at or below the position. -/
def bodyStart (p : Position) : Option Position :=
  let first := p.line.toNat
  let last := (min (p.line + scanLines) d.lineCount).toNat
  let index? := ((d.lines.take last).drop first).findIdx? (·.contains (.char '{'))
  index?.map fun i => ⟨first + i + 1, 0⟩

/-- The greatest line from `low` up to `low + n - 1` that is blank and not above `floor`. -/
def blankAbove (lines : List Text) (floor : Int) (low : Nat) : Nat → Option Nat
  | 0 => none
  | n + 1 =>
    if ((lines[low + n]?).any isBlankLine) && floor ≤ (low + n : Nat) then some (low + n)
    else blankAbove lines floor low n

/-- The nearest blank line at or above the position that is not above the enclosing class, else
the line of the position. -/
def memberStart (p : Position) : Position :=
  let here : Position := ⟨max p.line 0, 0⟩
  match d.enclosingClass p.line with
  | none => here
  | some owner =>
    let low := (p.line - (scanLines - 1)).toNat
    let count := (min p.line (d.lineCount - 1) + 1 - low).toNat
    match blankAbove d.lines owner.startLine low count with
    | some n => ⟨n, 0⟩
    | none => here

/-- Scans the lines from number `n` on, with the class declared last above them. -/
def propertiesFrom (name : Text) (current : Option ClassDecl) (n : Nat) :
    List Text → List PropertyDecl
  | [] => []
  | l :: r =>
    let current := (ClassDecl.find? l n).or current
    let rest := propertiesFrom name current (n + 1) r
    match PropertyDecl.find? l, current with
    | some p, some owner =>
      if owner.name = name then
        { owner, modifier := p.modifier, type := p.type, name := p.name, lineNumber := n,
          statement := p.statement } :: rest
      else rest
    | _, _ => rest

/-- The properties whose nearest class above has the given name, in the order of their lines.
Classes of one name share their properties. -/
def propertiesOf (name : Text) : List PropertyDecl := propertiesFrom name none 0 d.lines

end CSharpActions.Document
