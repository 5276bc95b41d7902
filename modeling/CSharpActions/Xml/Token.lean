import CSharpActions.Xml.Dtd

/-!
# Tokens of declarations

A declaration of a document type consists of tokens with any spaces between them. A name, a literal
and a closing parenthesis only count if a character that may follow them does.
-/
namespace CSharpActions.Xml

inductive Token where
  /-- A name without a prefix. -/
  | name (n : Text)
  /-- A name with a prefix. -/
  | prefixed (q : QName)
  /-- Characters of names that do not form a name. -/
  | word
  /-- A name and a sign of repetition. -/
  | repeated
  | literal (body : Text)
  /-- A name after a number sign. -/
  | keyword (n : Text)
  /-- The beginning of a declaration, with its keyword. -/
  | opening (n : Text)
  | closing
  | openParen
  /-- A closing parenthesis, with the sign of repetition after it. -/
  | closeParen (sign : Option CodePoint)
  | openBracket
  | closeBracket
  | comma
  | bar
  | percent
  /-- A reference to a parameter entity. -/
  | parameter
  /-- A comment or a processing instruction. -/
  | remark
deriving DecidableEq, Repr

namespace Token

/-- The name that a token is. -/
def qname? : Token → Option QName
  | .name n => some ⟨[], n⟩
  | .prefixed q => some q
  | _ => none

def isRepetition (c : CodePoint) : Bool := c = '?' || c = '*' || c = '+'

/-- Whether the text begins with a space or one of the given characters. -/
def setOff (marks : Text) (t : Text) : Bool := t.head?.any fun c => isSpace c || marks.contains c

/-- The token that characters of names form. After the colon of a prefix any character of names may
stand, but no second colon. -/
def ofWord (w : Text) : Token :=
  if w.head?.any isNameStart then
    match Text.splitOn ':' w with
    | [n] => .name n
    | [p, n] => if n.isEmpty then .word else .prefixed ⟨p, n⟩
    | _ => .word
  else .word

/-- Reads a name or a similar word. -/
def word? (t : Text) : Option (Token × Text) :=
  let isWordChar := fun c => isNameChar c || c = .char ':'
  let w := t.takeWhile isWordChar
  let r := t.dropWhile isWordChar
  if w.isEmpty then none
  else if setOff ">),|[%" r then some (ofWord w, r)
  else
    match r with
    | c :: s => if isRepetition c && ofWord w ≠ .word then some (.repeated, s) else none
    | [] => none

/-- Reads a literal after its opening quote. -/
def literal? (quote : CodePoint) (t : Text) : Option (Token × Text) :=
  (upTo? [quote] t).bind fun (body, r) =>
    if body.all isChar && setOff ">%[" r then some (.literal body, r) else none

/-- Reads what follows a number sign. -/
def keyword? (t : Text) : Option (Token × Text) :=
  (name? t).bind fun (n, r) => if setOff ")>%|" r then some (.keyword n, r) else none

/-- Reads what follows a percent sign. -/
def percent? (t : Text) : Option (Token × Text) :=
  if setOff "%" t then some (.percent, t)
  else
    match name? t with
    | some (_, .char ';' :: r) => some (.parameter, r)
    | _ => none

/-- Reads what follows a closing parenthesis. -/
def closeParen? (t : Text) : Option (Token × Text) :=
  if setOff ">,|)" t then some (.closeParen none, t)
  else
    match t with
    | c :: r => if isRepetition c then some (.closeParen (some c), r) else none
    | [] => none

def isKeywordChar (c : CodePoint) : Bool :=
  ('a' ≤ c && c ≤ 'z') || ('A' ≤ c && c ≤ 'Z') || c = '_'

/-- Reads the keyword of a declaration; a percent sign that follows begins a reference. -/
def opening? (t : Text) : Option (Token × Text) :=
  let w := t.takeWhile isKeywordChar
  let r := t.dropWhile isKeywordChar
  let separated :=
    match r with
    | .char '%' :: s => !s.isEmpty && !setOff "%" s
    | r => setOff [] r
  if !w.isEmpty && separated then some (.opening w, r) else none

/-- Reads the token that begins a text. -/
def read? (t : Text) : Option (Token × Text) :=
  match t with
  | .char '<' :: .char '?' :: r => (instruction? r).map (.remark, ·)
  | .char '<' :: .char '!' :: .char '-' :: .char '-' :: r => (comment? r).map (.remark, ·)
  | .char '<' :: .char '!' :: r => opening? r
  | .char '>' :: r => some (.closing, r)
  | .char '"' :: r => literal? '"' r
  | .char '\'' :: r => literal? '\'' r
  | .char '%' :: r => percent? r
  | .char '#' :: r => keyword? r
  | .char '(' :: r => some (.openParen, r)
  | .char ')' :: r => closeParen? r
  | .char '[' :: r => some (.openBracket, r)
  | .char ']' :: r => some (.closeBracket, r)
  | .char ',' :: r => some (.comma, r)
  | .char '|' :: r => some (.bar, r)
  | t => word? t

/-- Reads the next token after any spaces. -/
def next? (t : Text) : Option (Token × Text) := read? (skipSpace t)

end Token

end CSharpActions.Xml
