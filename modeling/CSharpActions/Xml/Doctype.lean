import CSharpActions.Xml.Token

/-!
# Reading document types

A document type declaration is a sequence of tokens. Declarations of elements and notations are
only checked.
-/
namespace CSharpActions.Xml

open Token (next?)

/-- Reads the end of a declaration. -/
def declarationEnd? (t : Text) : Option Text :=
  match next? t with
  | some (.closing, r) => some r
  | _ => none

/-- Reads a literal. -/
def nextLiteral? (t : Text) : Option (Text × Text) :=
  match next? t with
  | some (.literal body, r) => some (body, r)
  | _ => none

/-- A character of a public identifier. -/
def isPublicChar (c : CodePoint) : Bool :=
  ('a' ≤ c && c ≤ 'z') || ('A' ≤ c && c ≤ 'Z') || ('0' ≤ c && c ≤ '9') ||
    " \n\r-'()+,./:=?;!*#@$_%".text.contains c

/-- Reads a public identifier. -/
def publicId? (t : Text) : Option Text :=
  (nextLiteral? t).bind fun (id, r) => if id.all isPublicChar then some r else none

/-- Reads what names an external part, after its first word. -/
def externalId? (word t : Text) : Option Text :=
  if word = "SYSTEM".text then (nextLiteral? t).map (·.2)
  else if word = "PUBLIC".text then ((publicId? t).bind nextLiteral?).map (·.2)
  else none

/-- Reads the value of an entity; a parameter entity has no name here, since its references are
not expanded. -/
def entityValue? (d : Dtd) (name : Option Text) (t : Text) : Option (Dtd × Text) :=
  let add (e : Entity) : Dtd :=
    match name with
    | some n => d.addEntity n e
    | none => d
  match next? t with
  | some (.literal raw, r) =>
    (declarationEnd? r).bind fun r =>
      if d.active then (entityText (raw.length + 1) raw).map fun s => (add (.internal s), r)
      else some (d, r)
  | some (.name w, r) =>
    (externalId? w r).bind fun r =>
      match next? r with
      | some (.closing, r) => some (add .external, r)
      | some (.name w, r) =>
        if w = "NDATA".text && name.isSome then
          match next? r with
          | some (.name _, r) => (declarationEnd? r).map (add .unparsed, ·)
          | _ => none
        else none
      | _ => none
  | _ => none

/-- Reads the declaration of an entity after its keyword. -/
def entityDecl? (d : Dtd) (t : Text) : Option (Dtd × Text) :=
  match next? t with
  | some (.name n, r) => entityValue? d (some n) r
  | some (.percent, r) =>
    match next? r with
    | some (.name _, r) => entityValue? d none r
    | _ => none
  | _ => none

def typeWords : List Text :=
  ["CDATA", "ID", "IDREF", "IDREFS", "ENTITY", "ENTITIES", "NMTOKEN", "NMTOKENS"]

/-- Reads the alternatives of an enumerated type after its opening parenthesis. -/
def alternatives? (ok : Token → Bool) : Nat → Text → Option Text
  | 0, _ => none
  | fuel + 1, t =>
    (next? t).bind fun (token, r) =>
      if ok token then
        match next? r with
        | some (.bar, r) => alternatives? ok fuel r
        | some (.closeParen none, r) => some r
        | _ => none
      else none

def isAlternative : Token → Bool
  | .name _ => true
  | .prefixed _ => true
  | .word => true
  | _ => false

def isPlainName : Token → Bool
  | .name _ => true
  | _ => false

/-- Reads the type of an attribute: whether its value is tokenized. -/
def attributeType? (t : Text) : Option (Bool × Text) :=
  match next? t with
  | some (.openParen, r) => (alternatives? isAlternative (r.length + 1) r).map (true, ·)
  | some (.name w, r) =>
    if typeWords.contains w then some (w ≠ "CDATA".text, r)
    else if w = "NOTATION".text then
      match next? r with
      | some (.openParen, r) => (alternatives? isPlainName (r.length + 1) r).map (true, ·)
      | _ => none
    else none
  | _ => none

/-- Reads the default of an attribute: its raw value if it has one. -/
def attributeDefault? (t : Text) : Option (Option Text × Text) :=
  match next? t with
  | some (.literal raw, r) => some (some raw, r)
  | some (.keyword w, r) =>
    if w = "IMPLIED".text || w = "REQUIRED".text then some (none, r)
    else if w = "FIXED".text then (nextLiteral? r).map fun (raw, r) => (some raw, r)
    else none
  | _ => none

/-- Reads the attributes of a declaration after the name of the element. -/
def attributeDecls (element : QName) : Nat → Dtd → Text → Expansion (Dtd × Text)
  | 0, _, _ => failure
  | fuel + 1, d, t => do
    match ← next? t with
    | (.closing, r) => return (d, r)
    | (token, r) =>
      let name ← token.qname?
      let (tokenized, r) ← attributeType? r
      let (raw, r) ← attributeDefault? r
      if d.active then
        let value ← raw.mapM (attributeValue d tokenized)
        attributeDecls element fuel (d.addAttribute ⟨element, name, tokenized, value⟩) r
      else attributeDecls element fuel d r

/-- Reads the declaration of attributes after its keyword. -/
def attributesDecl (d : Dtd) (t : Text) : Expansion (Dtd × Text) := do
  let (token, r) ← next? t
  let element ← token.qname?
  attributeDecls element (r.length + 1) d r

/-- Reads the parts of a content model after an opening parenthesis, joined by one connector. -/
def model? : Nat → Option Token → Text → Option Text
  | 0, _, _ => none
  | fuel + 1, connector, t =>
    let part : Option Text :=
      match next? t with
      | some (.openParen, r) => model? fuel none r
      | some (.name _, r) => some r
      | some (.prefixed _, r) => some r
      | some (.repeated, r) => some r
      | _ => none
    part.bind fun r =>
      match next? r with
      | some (.closeParen _, r) => some r
      | some (token, r) =>
        if (token = .comma || token = .bar) && (connector.isNone || connector = some token) then
          model? fuel (some token) r
        else none
      | none => none

/-- Reads the names of mixed content; after names it may be repeated and has to be marked so. -/
def mixed? : Nat → Bool → Text → Option Text
  | 0, _, _ => none
  | fuel + 1, named, t =>
    match next? t with
    | some (.closeParen none, r) => if named then none else some r
    | some (.closeParen (some sign), r) => if sign = '*' then some r else none
    | some (.bar, r) =>
      (next? r).bind fun (token, r) => token.qname?.bind fun _ => mixed? fuel true r
    | _ => none

/-- Reads what an element may contain. -/
def contentModel? (t : Text) : Option Text :=
  match next? t with
  | some (.name w, r) => if w = "EMPTY".text || w = "ANY".text then some r else none
  | some (.openParen, r) =>
    match next? r with
    | some (.keyword w, s) => if w = "PCDATA".text then mixed? (s.length + 1) false s else none
    | _ => model? (2 * r.length + 1) none r
  | _ => none

/-- Reads the declaration of an element after its keyword. -/
def elementDecl? (t : Text) : Option Text :=
  (next? t).bind fun (token, r) =>
    token.qname?.bind fun _ => (contentModel? r).bind declarationEnd?

/-- Reads the declaration of a notation after its keyword; a public identifier may stand alone. -/
def notationDecl? (t : Text) : Option Text :=
  match next? t with
  | some (.name _, r) =>
    match next? r with
    | some (.name w, r) =>
      match (externalId? w r).bind declarationEnd? with
      | some r => some r
      | none => if w = "PUBLIC".text then (publicId? r).bind declarationEnd? else none
    | _ => none
  | _ => none

/-- Reads a declaration after its keyword. -/
def declaration (d : Dtd) (keyword t : Text) : Expansion (Dtd × Text) :=
  if keyword = "ENTITY".text then entityDecl? d t
  else if keyword = "ATTLIST".text then attributesDecl d t
  else if keyword = "ELEMENT".text then (elementDecl? t).map (d, ·)
  else if keyword = "NOTATION".text then (notationDecl? t).map (d, ·)
  else failure

/-- Reads declarations up to the bracket that closes them. -/
def subset : Nat → Dtd → Text → Expansion (Dtd × Text)
  | 0, _, _ => failure
  | fuel + 1, d, t => do
    match ← next? t with
    | (.closeBracket, r) => return (d, r)
    | (.remark, r) => subset fuel d r
    | (.parameter, r) => subset fuel { d with partly := true, active := d.standalone } r
    | (.opening keyword, r) =>
      let (d, r) ← declaration d keyword r
      subset fuel d r
    | _ => failure

/-- Reads the declarations of a document type, if there are any, and its end. -/
def doctypeEnd (d : Dtd) (t : Text) : Expansion (Dtd × Text) := do
  match ← next? t with
  | (.closing, r) => return (d, r)
  | (.openBracket, r) =>
    let (d, r) ← subset (r.length + 1) d r
    return (d, ← declarationEnd? r)
  | _ => failure

/-- Reads a document type declaration after its keyword. -/
def doctype (standalone : Bool) (t : Text) : Expansion (Dtd × Text) := do
  let (token, r) ← next? t
  let _ ← token.qname?
  match next? r with
  | some (.name w, s) => doctypeEnd { standalone, partly := true } (← externalId? w s)
  | _ => doctypeEnd { standalone } r

end CSharpActions.Xml
