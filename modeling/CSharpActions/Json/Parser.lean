import CSharpActions.Json.Basic
import CSharpActions.Text.Integer

/-!
# Reading JSON

Beyond the standard the words for the infinite and undefined numbers are read. Of two fields with
one name the later value counts, in the earlier place. A byte order mark is not white space. Half
of a surrogate pair may stand alone. Long integers and deeply nested values are refused.
-/
namespace CSharpActions.Json

/-- A bound that a text exceeds. -/
inductive Limit where
  /-- An integer has more digits than can be read. -/
  | digits (count : Nat)
  /-- Values are nested more deeply than can be read. -/
  | depth
deriving DecidableEq, Repr

def Limit.message : Limit → Text
  | .digits count => (Text.IntegerError.tooLong count).message
  | .depth => "the value is nested too deeply"

inductive ParseError where
  /-- The text is not JSON. -/
  | malformed
  | limit (l : Limit)
deriving DecidableEq, Repr

abbrev Parsed (α : Type) := Except ParseError (α × Text)

def isSpace (c : CodePoint) : Bool := c = ' ' || c = '\t' || c = '\n' || c = '\r'

def skipSpace (t : Text) : Text := t.dropWhile isSpace

def hexValue? (c : CodePoint) : Option Nat :=
  if '0' ≤ c && c ≤ '9' then some (c.toNat - 48)
  else if 'a' ≤ c && c ≤ 'f' then some (c.toNat - 87)
  else if 'A' ≤ c && c ≤ 'F' then some (c.toNat - 55)
  else none

/-- Reads four hexadecimal digits. -/
def hex4? : Text → Option (Nat × Text)
  | a :: b :: c :: d :: r => do
    let a ← hexValue? a
    let b ← hexValue? b
    let c ← hexValue? c
    let d ← hexValue? d
    pure (((a * 16 + b) * 16 + c) * 16 + d, r)
  | _ => none

def isHighSurrogate (n : Nat) : Bool := 0xD800 ≤ n && n < 0xDC00

def isLowSurrogate (n : Nat) : Bool := 0xDC00 ≤ n && n < 0xE000

/-- Reads what follows the letter u of an escape, with the second half of a pair if it follows. -/
def unicodeEscape? (t : Text) : Option (CodePoint × Text) := do
  let (high, r) ← hex4? t
  if isHighSurrogate high then
    match r with
    | .char '\\' :: .char 'u' :: s =>
      match hex4? s with
      | some (low, s) =>
        if isLowSurrogate low then
          pure (.ofNat (0x10000 + (high - 0xD800) * 0x400 + (low - 0xDC00)), s)
        else pure (.ofNat high, r)
      | none => pure (.ofNat high, r)
    | _ => pure (.ofNat high, r)
  else pure (.ofNat high, r)

def simpleEscape? (c : CodePoint) : Option CodePoint :=
  match c with
  | .char '"' => some '"'
  | .char '\\' => some '\\'
  | .char '/' => some '/'
  | .char 'b' => some '\x08'
  | .char 'f' => some '\x0c'
  | .char 'n' => some '\n'
  | .char 'r' => some '\r'
  | .char 't' => some '\t'
  | _ => none

/-- Reads a string after its opening quote. -/
def stringBody : Nat → Text → Parsed Text
  | 0, _ => .error .malformed
  | _ + 1, [] => .error .malformed
  | _ + 1, .char '"' :: r => .ok ([], r)
  | _ + 1, .char '\\' :: [] => .error .malformed
  | fuel + 1, .char '\\' :: c :: r =>
    if c = 'u' then
      match unicodeEscape? r with
      | some (d, r) => (stringBody fuel r).map fun (s, r) => (d :: s, r)
      | none => .error .malformed
    else
      match simpleEscape? c with
      | some d => (stringBody fuel r).map fun (s, r) => (d :: s, r)
      | none => .error .malformed
  | fuel + 1, c :: r =>
    if c.toNat < 0x20 then .error .malformed
    else (stringBody fuel r).map fun (s, r) => (c :: s, r)

/-- The digits after a point, if there are any. -/
def fraction (t : Text) : Option (Text × Text) :=
  match t with
  | .char '.' :: r =>
    let digits := r.takeWhile Text.isPlainDigit
    if digits.isEmpty then none else some (digits, r.dropWhile Text.isPlainDigit)
  | _ => none

/-- The exponent after its letter, if there is one. -/
def exponent (t : Text) : Option (Int × Text) :=
  match t with
  | e :: r =>
    if e = 'e' || e = 'E' then
      let (negative, r) :=
        match r with
        | .char '-' :: s => (true, s)
        | .char '+' :: s => (false, s)
        | s => (false, s)
      let digits := r.takeWhile Text.isPlainDigit
      if digits.isEmpty then none
      else
        let n : Int := Text.natOfDigits digits
        some (if negative then -n else n, r.dropWhile Text.isPlainDigit)
    else none
  | [] => none

/-- Reads a number after its sign: an integer, unless a fraction or an exponent follows. -/
def number (negative : Bool) (t : Text) : Parsed Json :=
  let whole : Text :=
    match t with
    | .char '0' :: _ => ['0']
    | _ => t.takeWhile Text.isPlainDigit
  if whole.isEmpty then .error .malformed
  else
    let r := t.drop whole.length
    let (part, r, hasPart) :=
      match fraction r with
      | some (digits, r) => (digits, r, true)
      | none => ([], r, false)
    let (power, r, hasPower) :=
      match exponent r with
      | some (n, r) => (n, r, true)
      | none => (0, r, false)
    if hasPart || hasPower then
      .ok (.float (Binary64.ofDecimal negative (Text.natOfDigits (whole ++ part))
        (power - part.length)), r)
    else if Text.maxDigits < whole.length then .error (.limit (.digits whole.length))
    else
      let n : Int := Text.natOfDigits whole
      .ok (.int (if negative then -n else n), r)

/-- The words for values, and what they stand for. -/
def words : List (Text × Json) :=
  [("null", .null), ("true", .bool true), ("false", .bool false), ("NaN", .float .nan),
    ("Infinity", .float (.infinite false)), ("-Infinity", .float (.infinite true))]

def word? (t : Text) : Option (Json × Text) :=
  words.findSome? fun (w, v) => (Text.after? w t).map (v, ·)

mutual

/-- Reads a value that begins the text; `room` more arrays and objects may be opened. -/
def value : Nat → Nat → Text → Parsed Json
  | 0, _, _ => .error .malformed
  | fuel + 1, room, t =>
    match t with
    | .char '"' :: r => (stringBody fuel r).map fun (s, r) => (.str s, r)
    | .char '{' :: r =>
      match room, skipSpace r with
      | 0, _ => .error (.limit .depth)
      | _ + 1, .char '}' :: r => .ok (.obj [], r)
      | room + 1, r => (members fuel room [] r).map fun (fields, r) => (.obj fields, r)
    | .char '[' :: r =>
      match room, skipSpace r with
      | 0, _ => .error (.limit .depth)
      | _ + 1, .char ']' :: r => .ok (.arr [], r)
      | room + 1, r => (elements fuel room r).map fun (items, r) => (.arr items, r)
    | t =>
      match word? t with
      | some found => .ok found
      | none =>
        match t with
        | .char '-' :: r => number true r
        | t => number false t

/-- Reads the fields of an object up to its closing brace. -/
def members : Nat → Nat → List (Text × Json) → Text → Parsed (List (Text × Json))
  | 0, _, _, _ => .error .malformed
  | fuel + 1, room, seen, t =>
    match t with
    | .char '"' :: r =>
      match stringBody fuel r with
      | .error e => .error e
      | .ok (key, r) =>
        match skipSpace r with
        | .char ':' :: r =>
          match value fuel room (skipSpace r) with
          | .error e => .error e
          | .ok (v, r) =>
            match skipSpace r with
            | .char ',' :: r => members fuel room (setField key v seen) (skipSpace r)
            | .char '}' :: r => .ok (setField key v seen, r)
            | _ => .error .malformed
        | _ => .error .malformed
    | _ => .error .malformed

/-- Reads the items of an array up to its closing bracket. -/
def elements : Nat → Nat → Text → Parsed (List Json)
  | 0, _, _ => .error .malformed
  | fuel + 1, room, t =>
    match value fuel room t with
    | .error e => .error e
    | .ok (v, r) =>
      match skipSpace r with
      | .char ',' :: r => (elements fuel room (skipSpace r)).map fun (items, r) => (v :: items, r)
      | .char ']' :: r => .ok ([v], r)
      | _ => .error .malformed

end

/-- Reads a whole text as one value, with so many arrays and objects nested in another one at most.
Of the fuel, a step of the reader takes at most two for each character that it reads. -/
def parse (nesting : Nat) (t : Text) : Except ParseError Json :=
  match value (2 * t.length + 2) (nesting + 1) (skipSpace t) with
  | .error e => .error e
  | .ok (v, r) => if (skipSpace r).isEmpty then .ok v else .error .malformed

end CSharpActions.Json
