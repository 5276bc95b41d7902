import CSharpActions.Text.Newline
import CSharpActions.Xml.Doctype
import CSharpActions.Xml.Tree

/-!
# Reading XML

A document is read with its namespaces. It is accepted only if it is well formed: tags match,
prefixes are declared, attributes are unique, and entities are declared and expand to balanced
content.
-/
namespace CSharpActions.Xml

def xmlSpace : Text := "http://www.w3.org/XML/1998/namespace"

def xmlnsSpace : Text := "http://www.w3.org/2000/xmlns/"

/-- The namespaces of the prefixes in force; the empty prefix is that of names without one. -/
abbrev Scope := List (Text × Text)

def Scope.initial : Scope := [("xml", xmlSpace)]

/-- Adds a namespace declaration. The prefix xml and its namespace belong together, and no prefix
can be undeclared. -/
def Scope.declare? (s : Scope) (p uri : Text) : Option Scope :=
  let isXml := p = "xml".text
  if p = "xmlns".text || (uri.isEmpty && !p.isEmpty) || uri.contains (.char '}') ||
      uri = xmlnsSpace || isXml != (uri = xmlSpace) then none
  else some ((p, uri) :: s)

/-- The prefix that an attribute declares. -/
def declaredPrefix? (q : QName) : Option Text :=
  if q.space = "xmlns".text then some q.name
  else if q.space.isEmpty && q.name = "xmlns".text then some []
  else none

def Scope.declareAll? : Scope → List (QName × Text) → Option Scope
  | s, [] => some s
  | s, (q, v) :: r =>
    match declaredPrefix? q with
    | some p => (s.declare? p v).bind fun s => declareAll? s r
    | none => declareAll? s r

/-- The name of an element: without a prefix it is in the default namespace. -/
def Scope.elementName? (s : Scope) (q : QName) : Option Name :=
  match s.lookup q.space with
  | some uri => some ⟨uri, q.name⟩
  | none => if q.space.isEmpty then some ⟨[], q.name⟩ else none

/-- The name of an attribute: without a prefix it is in no namespace. -/
def Scope.attributeName? (s : Scope) (q : QName) : Option Name :=
  if q.space.isEmpty then some ⟨[], q.name⟩ else (s.lookup q.space).map (⟨·, q.name⟩)

/-- An opened element. -/
structure Tag where
  name : Name
  attributes : List (Name × Text)
deriving DecidableEq, Repr

/-- The attributes of a tag as they are written, whether the tag is empty, and the rest. -/
def rawAttributes? : Nat → Text → Option (List (QName × Text) × Bool × Text)
  | 0, _ => none
  | fuel + 1, t =>
    match skipSpace t with
    | .char '>' :: r => some ([], false, r)
    | .char '/' :: .char '>' :: r => some ([], true, r)
    | _ =>
      (spaces? t).bind fun r => (qname? r).bind fun (q, r) =>
        (Text.after? [.char '='] (skipSpace r)).bind fun r =>
          match skipSpace r with
          | mark :: r =>
            if mark = '"' || mark = '\'' then
              (upTo? [mark] r).bind fun (raw, r) =>
                (rawAttributes? fuel r).map fun (more, isEmpty, r) => ((q, raw) :: more, isEmpty, r)
            else none
          | [] => none

/-- The attributes of an element with their values, the defaults included. -/
def attributesOf (d : Dtd) (element : QName) (raw : List (QName × Text)) :
    Expansion (List (QName × Text)) := do
  let defs : List AttributeDef := d.attributes.filter fun a => a.element = element
  let given : List (QName × Text) ← raw.mapM fun (q, v) => do
    let tokenized := (defs.find? fun a => a.name = q).any (·.tokenized)
    return (q, ← attributeValue d tokenized v)
  return given ++ defs.filterMap fun a =>
    if given.any fun g => g.1 = a.name then none else a.default.map (a.name, ·)

def distinct [BEq α] : List α → Bool
  | [] => true
  | x :: r => !r.contains x && distinct r

/-- The names of the attributes that declare no namespace. -/
def Scope.attributeNames? (s : Scope) (attributes : List (QName × Text)) :
    Option (List (Name × Text)) :=
  (attributes.filter fun a => (declaredPrefix? a.1).isNone).mapM fun (a, v) =>
    (s.attributeName? a).map (·, v)

/-- The opened element and the namespaces in force inside it. -/
def openTag (d : Dtd) (s : Scope) (q : QName) (raw : List (QName × Text)) :
    Expansion (Tag × Scope) := do
  guard (distinct (raw.map (·.1)))
  let attributes ← attributesOf d q raw
  let s ← s.declareAll? attributes
  let name ← s.elementName? q
  let named ← s.attributeNames? attributes
  guard (distinct (named.map (·.1)))
  return (⟨name, named⟩, s)

/-- What content consists of. -/
inductive Event where
  | opened (t : Tag)
  | closed
  | chars (t : Text)
deriving DecidableEq, Repr

/-- An element that is still open: its name as written, and the namespaces inside it. -/
structure Open where
  name : QName
  scope : Scope

/-- Reads content. Inside an entity it ends with the text, and all that was opened has to be
closed; else it ends when the last open element is closed. The fuel exceeds the length of the text,
since each step takes at least one character. -/
def content (d : Dtd) (base : Scope) :
    Nat → List Text → Bool → List Open → Text → Expansion (List Event × Text)
  | 0, _, _, _, _ => failure
  | fuel + 1, entities, inEntity, opened, t => do
    let scope := (opened.head?.map (·.scope)).getD base
    let after (events : List Event) (opened : List Open) (r : Text) :
        Expansion (List Event × Text) := do
      let (more, s) ← content d base fuel entities inEntity opened r
      return (events ++ more, s)
    match t with
    | [] => if inEntity && opened.isEmpty then return ([], []) else failure
    | .char '<' :: .char '/' :: r =>
      let (q, r) ← qname? r
      let r ← Text.after? ">" (skipSpace r)
      match opened with
      | [] => failure
      | o :: rest =>
        if o.name ≠ q then failure
        else if rest.isEmpty && !inEntity then return ([.closed], r)
        else after [.closed] rest r
    | .char '<' :: .char '!' :: .char '-' :: .char '-' :: r => after [] opened (← comment? r)
    | .char '<' :: .char '!' :: r =>
      let (body, r) ← upTo? "]]>" (← Text.after? "[CDATA[" r)
      if body.all isChar then after [.chars body] opened r else failure
    | .char '<' :: .char '?' :: r => after [] opened (← instruction? r)
    | .char '<' :: r =>
      let (q, r) ← qname? r
      let (raw, isEmpty, r) ← rawAttributes? fuel r
      let (tag, inner) ← openTag d scope q raw
      if isEmpty then after [.opened tag, .closed] opened r
      else after [.opened tag] (⟨q, inner⟩ :: opened) r
    | .char '&' :: r =>
      match ← reference? r with
      | (.char c, r) => after [.chars [c]] opened r
      | (.entity n, r) =>
        match predefined.lookup n, d.entities.lookup n with
        | some c, _ => after [.chars [c]] opened r
        | none, some (.internal s) =>
          if entities.contains n then failure
          else
            expand s
            let (inner, _) ← content d scope fuel (n :: entities) true [] s
            after inner opened r
        | none, _ => failure
    | t =>
      let isText := fun c => c ≠ .char '<' && c ≠ .char '&'
      let run := t.takeWhile isText
      if run.all isChar && !Text.occursIn "]]>" run then
        after [.chars run] opened (t.dropWhile isText)
      else failure

/-- An element whose content is still being read, the last child and the last text first. -/
structure Partial where
  tag : Tag
  texts : List Text := []
  children : List Element := []

def Partial.finish (p : Partial) : Element :=
  .mk p.tag.name p.tag.attributes p.texts.reverse.flatten p.children.reverse

/-- Puts the events into a tree; only text before the first child is kept. -/
def assemble : List Partial → List Event → Option Element
  | _, [] => none
  | stack, .opened t :: r => assemble ({ tag := t } :: stack) r
  | [], _ :: _ => none
  | p :: stack, .chars t :: r =>
    assemble ((if p.children.isEmpty then { p with texts := t :: p.texts } else p) :: stack) r
  | p :: [], .closed :: _ => some p.finish
  | p :: q :: stack, .closed :: r =>
    assemble ({ q with children := p.finish :: q.children } :: stack) r

/-- Drops spaces, comments and processing instructions. -/
def skipMisc? : Nat → Text → Option Text
  | 0, _ => none
  | fuel + 1, t =>
    match skipSpace t with
    | .char '<' :: .char '!' :: .char '-' :: .char '-' :: r => (comment? r).bind (skipMisc? fuel)
    | .char '<' :: .char '?' :: r => (instruction? r).bind (skipMisc? fuel)
    | r => some r

/-- A part of the declaration of the document: a name and a plain value. -/
def pseudoAttribute? (t : Text) : Option (Text × Text × Text) :=
  (spaces? t).bind fun r =>
    let name := r.takeWhile fun c => !isSpace c && c ≠ '='
    if name.isEmpty then none
    else
      (Text.after? [.char '='] (skipSpace (r.drop name.length))).bind fun r =>
        match skipSpace r with
        | mark :: r =>
          if mark = '"' || mark = '\'' then
            (upTo? [mark] r).bind fun (v, r) =>
              let plain (c : CodePoint) : Bool :=
                c.char?.any Char.isAlphanum || c = '.' || c = '-' || c = '_'
              if v.all plain then some (name, v, r) else none
          else none
        | [] => none

/-- Reads the part with the given name, if it comes next. -/
def optionalPart? (name t : Text) : Option (Option Text × Text) :=
  if (skipSpace t).isEmpty then some (none, [])
  else
    (pseudoAttribute? t).map fun (n, v, r) => if n = name then (some v, r) else (none, t)

/-- Reads the declaration of a document after its keyword: whether it stands alone. -/
def standalone? (body : Text) : Option Bool :=
  (pseudoAttribute? body).bind fun (n, _, r) =>
    if n ≠ "version".text then none
    else
      (optionalPart? "encoding" r).bind fun (encoding, r) =>
        if encoding.any fun e => !(e.head?.any fun c => c.char?.any Char.isAlpha) then none
        else
          (optionalPart? "standalone" r).bind fun (alone, r) =>
            if !(skipSpace r).isEmpty then none
            else
              match alone with
              | none => some false
              | some v =>
                if v = "yes".text then some true else if v = "no".text then some false else none

/-- Reads the beginning of a document: whether it stands alone, and what follows. -/
def prologue? (t : Text) : Option (Bool × Text) :=
  match Text.after? "<?xml" t with
  | some (c :: r) =>
    if isSpace c || c = '?' then
      (upTo? "?>" (c :: r)).bind fun (body, r) => (standalone? body).map (·, r)
    else some (false, t)
  | _ => some (false, t)

/-- Reads the document type, if there is one, and what stands between it and the root. -/
def documentType (standalone : Bool) (t : Text) : Expansion (Dtd × Text) := do
  match Token.read? t with
  | some (.opening keyword, r) =>
    if keyword = "DOCTYPE".text then
      let (d, r) ← doctype standalone r
      return (d, ← skipMisc? (r.length + 1) r)
    else failure
  | _ => return ({ standalone }, t)

/-- Reads the root element: its events, and what follows it. -/
def rootElement (d : Dtd) (t : Text) : Expansion (List Event × Text) := do
  let (q, r) ← qname? (← Text.after? "<" t)
  let (raw, isEmpty, r) ← rawAttributes? (r.length + 1) r
  let (tag, scope) ← openTag d .initial q raw
  if isEmpty then return ([.opened tag, .closed], r)
  else
    let (events, r) ← content d scope (d.fuel r + 1) [] false [⟨q, scope⟩] r
    return (.opened tag :: events, r)

def document (t : Text) : Expansion Element := do
  let (standalone, r) ← prologue? t
  let (d, r) ← documentType standalone (← skipMisc? (r.length + 1) r)
  let (events, r) ← rootElement d r
  let r ← skipMisc? (r.length + 1) r
  if r.isEmpty then assemble [] events else failure

/-- Reads a document. -/
def parse? (source : Text) : Option Element :=
  let t := Text.unifyNewlines (match source with | .char '\uFEFF' :: r => r | r => r)
  (document t).run' (allowance t)

end CSharpActions.Xml
