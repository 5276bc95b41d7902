import CSharpActions.Json.Parser
import CSharpActions.Text.Utf8
import CSharpActions.Xml.Name

/-!
# Document types

What the declarations of a document type say about the document: general entities, and the types
and defaults of attributes. References in the values of attributes and entities are expanded by
them, within a bound on what a document may expand to. External parts are not read.
-/
namespace CSharpActions.Xml

inductive Entity where
  | internal (text : Text)
  | external
  /-- An entity that is not XML. -/
  | unparsed
deriving DecidableEq, Repr

structure AttributeDef where
  element : QName
  name : QName
  /-- Whether blanks in the value are collapsed. -/
  tokenized : Bool
  default : Option Text
deriving DecidableEq, Repr

structure Dtd where
  standalone : Bool := false
  /-- Whether there are declarations that are not read. -/
  partly : Bool := false
  /-- Whether declarations still count. -/
  active : Bool := true
  entities : List (Text × Entity) := []
  attributes : List AttributeDef := []
deriving DecidableEq, Repr

namespace Dtd

/-- Whether every entity has to be declared. -/
def complete (d : Dtd) : Bool := d.standalone || !d.partly

/-- The first declaration of an entity counts. -/
def addEntity (d : Dtd) (name : Text) (e : Entity) : Dtd :=
  if d.active && (d.entities.lookup name).isNone then
    { d with entities := d.entities ++ [(name, e)] }
  else d

/-- The first declaration of an attribute counts. -/
def addAttribute (d : Dtd) (a : AttributeDef) : Dtd :=
  if d.active && !d.attributes.any fun b => b.element = a.element && b.name = a.name then
    { d with attributes := d.attributes ++ [a] }
  else d

/-- An upper bound of the steps that expanding a text can take along one chain of entities. -/
def fuel (d : Dtd) (t : Text) : Nat :=
  d.entities.foldl
    (fun n e => match e.2 with | .internal s => n + s.length + 1 | _ => n) (t.length + 1)

end Dtd

/-- Reading that expands entities. The state is the number of bytes to which they may still
expand. -/
abbrev Expansion := StateT Nat Option

/-- Counts the text of an entity that is expanded. -/
def expand (t : Text) : Expansion Unit := fun left =>
  let size := Text.Utf8.size t
  if size ≤ left then some ((), left - size) else none

/-- The bytes to which the entities of a document may expand: together with the document less than
eight mebibytes, or else a hundred times the document. -/
def allowance (document : Text) : Nat :=
  let size := Text.Utf8.size document
  max (8 * 1024 * 1024 - 1 - size) (99 * size)

/-- The text before the first occurrence of a mark, and what follows the mark. -/
def upTo? (mark : Text) : Text → Option (Text × Text)
  | [] => none
  | c :: r =>
    match Text.after? mark (c :: r) with
    | some s => some ([], s)
    | none => (upTo? mark r).map fun (a, s) => (c :: a, s)

def skipSpace (t : Text) : Text := t.dropWhile isSpace

/-- Reads at least one space, and all that follow. -/
def spaces? : Text → Option Text
  | c :: r => if isSpace c then some (skipSpace r) else none
  | [] => none

/-- Reads a comment after its opening mark. -/
def comment? (t : Text) : Option Text :=
  match upTo? "--" t with
  | some (body, .char '>' :: r) => if body.all isChar then some r else none
  | _ => none

/-- The target that is kept for the declaration of the document itself. -/
def isReserved (target : Text) : Bool := target.map CodePoint.toLower = "xml".text

/-- Reads a processing instruction after its opening mark. -/
def instruction? (t : Text) : Option Text :=
  (name? t).bind fun (target, r) =>
    if isReserved target then none
    else
      match r with
      | .char '?' :: .char '>' :: r => some r
      | c :: r =>
        if isSpace c then
          (upTo? "?>" r).bind fun (body, r) => if body.all isChar then some r else none
        else none
      | [] => none

/-- A reference to a character or to an entity. -/
inductive Reference where
  | char (c : CodePoint)
  | entity (name : Text)
deriving DecidableEq, Repr

/-- The character with the given code point, if a document may hold it. -/
def charOf? (n : Nat) : Option CodePoint :=
  if n < 0x110000 && isChar (.ofNat n) then some (.ofNat n) else none

/-- Reads a reference after its ampersand. -/
def reference? (t : Text) : Option (Reference × Text) :=
  match t with
  | .char '#' :: .char 'x' :: r =>
    let digits := r.takeWhile fun c => (Json.hexValue? c).isSome
    let n := digits.foldl
      (fun n c => if n < 0x110000 then 16 * n + (Json.hexValue? c).getD 0 else n) 0
    match digits, r.drop digits.length with
    | _ :: _, .char ';' :: r => (charOf? n).map fun c => (.char c, r)
    | _, _ => none
  | .char '#' :: r =>
    let digits := r.takeWhile Text.isPlainDigit
    let n := digits.foldl (fun n c => if n < 0x110000 then 10 * n + (c.toNat - 48) else n) 0
    match digits, r.drop digits.length with
    | _ :: _, .char ';' :: r => (charOf? n).map fun c => (.char c, r)
    | _, _ => none
  | r =>
    match name? r with
    | some (n, .char ';' :: r) => some (.entity n, r)
    | _ => none

/-- The entities that need no declaration. -/
def predefined : List (Text × CodePoint) :=
  [("amp", '&'), ("lt", '<'), ("gt", '>'), ("quot", '"'), ("apos", '\'')]

/-- The value of an attribute: references are expanded and blanks become spaces. -/
def attributeText (d : Dtd) : Nat → List Text → Text → Expansion Text
  | 0, _, _ => failure
  | _ + 1, _, [] => return []
  | fuel + 1, opened, c :: r =>
    if c = '&' then do
      match ← reference? r with
      | (.char c, r) => return c :: (← attributeText d fuel opened r)
      | (.entity n, r) =>
        match predefined.lookup n, d.entities.lookup n with
        | some c, _ => return c :: (← attributeText d fuel opened r)
        | none, none => if d.complete then failure else attributeText d fuel opened r
        | none, some (.internal s) =>
          if opened.contains n then failure
          else
            expand s
            let inner ← attributeText d fuel (n :: opened) s
            return inner ++ (← attributeText d fuel opened r)
        | none, some _ => failure
    else if c = '<' || !isChar c then failure
    else return (if isSpace c then ' ' else c) :: (← attributeText d fuel opened r)

/-- A text without spaces at its ends and with single spaces between its words. -/
def collapse (t : Text) : Text :=
  List.intercalate [' '] ((Text.splitOn ' ' t).filter fun w => !w.isEmpty)

def attributeValue (d : Dtd) (tokenized : Bool) (raw : Text) : Expansion Text := do
  let t ← attributeText d (d.fuel raw) [] raw
  return if tokenized then collapse t else t

/-- The text of an entity: references to characters are expanded, those to entities stay. -/
def entityText : Nat → Text → Option Text
  | 0, _ => none
  | _ + 1, [] => some []
  | fuel + 1, c :: r =>
    if c = '&' then
      match reference? r with
      | none => none
      | some (.char c, r) => (entityText fuel r).map (c :: ·)
      | some (.entity n, r) => (entityText fuel r).map fun t => "&" ++ n ++ ";" ++ t
    else if c = '%' || !isChar c then none
    else (entityText fuel r).map (c :: ·)

end CSharpActions.Xml
