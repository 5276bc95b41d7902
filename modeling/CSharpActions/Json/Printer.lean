import CSharpActions.Json.Basic
import CSharpActions.Text.Quoted

/-!
# Writing JSON

A document is written in ASCII with two spaces per level and the fields of every object in the
order of their code points. A line of JSON keeps the order of the fields and writes characters
beyond ASCII as they are.
-/
namespace CSharpActions.Json

/-- The escape of a code point as one unit, or as two above U+FFFF. -/
def unicodeEscape (n : Nat) : Text :=
  if n < 0x10000 then "\\u" ++ Text.hex 4 n
  else
    "\\u" ++ Text.hex 4 (0xD800 + (n - 0x10000) / 0x400) ++ "\\u" ++
      Text.hex 4 (0xDC00 + (n - 0x10000) % 0x400)

def shortEscape? (c : CodePoint) : Option CodePoint :=
  match c with
  | .char '"' => some '"'
  | .char '\\' => some '\\'
  | .char '\x08' => some 'b'
  | .char '\x0c' => some 'f'
  | .char '\n' => some 'n'
  | .char '\r' => some 'r'
  | .char '\t' => some 't'
  | _ => none

/-- A character inside a string, as itself if `plain` holds and there is no short escape. -/
def escapeChar (plain : CodePoint → Bool) (c : CodePoint) : Text :=
  match shortEscape? c with
  | some e => ['\\', e]
  | none => if plain c then [c] else unicodeEscape c.toNat

def quote (plain : CodePoint → Bool) (s : Text) : Text :=
  "\"" ++ s.flatMap (escapeChar plain) ++ "\""

/-- The characters that stand for themselves in a document. -/
def plainAscii (c : CodePoint) : Bool := 0x20 ≤ c.toNat && c.toNat < 0x7F

/-- The characters that stand for themselves in a line. -/
def plainLine (c : CodePoint) : Bool :=
  c.char?.isSome && 0x20 ≤ c.toNat && !List.contains [0x7F, 0x85, 0x2028, 0x2029] c.toNat

def renderFloat (x : Binary64) : Text := x.render "Infinity" "NaN"

/-- A new line at the given level. -/
def newline (level : Nat) : Text := '\n' :: Text.copies (2 * level) ' '

/-- Puts what it writes in front of a text, so that nothing is copied twice. -/
abbrev Writer := Text → Text

/-- What the writers write, with the separator between them. -/
def separated (separator : Text) : List Writer → Writer
  | [] => id
  | [w] => w
  | w :: ws => fun rest => w (separator ++ separated separator ws rest)

/-- A bracketed list of items, each on a line of its own. -/
def block (level : Nat) (opening closing : CodePoint) (items : List Writer) : Writer := fun rest =>
  if items.isEmpty then opening :: closing :: rest
  else
    opening :: (newline (level + 1) ++ separated (.char ',' :: newline (level + 1)) items
      (newline level ++ closing :: rest))

/-- The fields in the order of their names. -/
def sortFields (fields : List (Text × α)) : List (Text × α) :=
  fields.mergeSort fun a b => Text.le a.1 b.1

mutual

/-- Writes a value as a document, at the given level of nesting. -/
def renderAt (level : Nat) : Json → Writer
  | .null => ("null" ++ ·)
  | .bool b => ((if b then "true".text else "false") ++ ·)
  | .int n => (Text.ofInt n ++ ·)
  | .float x => (renderFloat x ++ ·)
  | .str s => (quote plainAscii s ++ ·)
  | .arr items => block level '[' ']' (renderItems (level + 1) items)
  | .obj fields =>
    block level '{' '}' ((sortFields (renderFields (level + 1) fields)).map fun (k, w) rest =>
      quote plainAscii k ++ (": " ++ w rest))

def renderItems (level : Nat) : List Json → List Writer
  | [] => []
  | v :: r => renderAt level v :: renderItems level r

def renderFields (level : Nat) : List (Text × Json) → List (Text × Writer)
  | [] => []
  | (k, v) :: r => (k, renderAt level v) :: renderFields level r

end

def render (v : Json) : Text := renderAt 0 v []

mutual

/-- A value on a single line. -/
def line : Json → Text
  | .null => "null"
  | .bool b => if b then "true" else "false"
  | .int n => Text.ofInt n
  | .float x => renderFloat x
  | .str s => quote plainLine s
  | .arr items => "[" ++ List.intercalate "," (lineItems items) ++ "]"
  | .obj fields => "\x7b" ++ List.intercalate "," (lineFields fields) ++ "\x7d"

def lineItems : List Json → List Text
  | [] => []
  | v :: r => line v :: lineItems r

def lineFields : List (Text × Json) → List Text
  | [] => []
  | (k, v) :: r => (quote plainLine k ++ ":" ++ line v) :: lineFields r

end

mutual

/-- A value as messages show it: the words None, True and False, quoted text, and brackets with a
blank after each comma. -/
def display : Json → Text
  | .null => "None"
  | .bool b => if b then "True" else "False"
  | .int n => Text.ofInt n
  | .float x => x.render "inf" "nan"
  | .str s => Text.quoted s
  | .arr items => "[" ++ List.intercalate ", " (displayItems items) ++ "]"
  | .obj fields => "\x7b" ++ List.intercalate ", " (displayFields fields) ++ "\x7d"

def displayItems : List Json → List Text
  | [] => []
  | v :: r => display v :: displayItems r

def displayFields : List (Text × Json) → List Text
  | [] => []
  | (k, v) :: r => (Text.quoted k ++ ": " ++ display v) :: displayFields r

end

/-- A value as plain text: a string stands for itself, all else as messages show it. -/
def plainText : Json → Text
  | .str s => s
  | v => display v

end CSharpActions.Json
