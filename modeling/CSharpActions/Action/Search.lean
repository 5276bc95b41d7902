import CSharpActions.Action.Basic

/-!
# Searching for actions

The searches around a cursor look at lines by their numbers, one after another, and a number that no
line has ends them. So does a text that cannot be built.
-/
namespace CSharpActions

/-- Why the search for actions ends without an answer. -/
inductive SearchError where
  | line (e : LineError)
  | size (e : Text.SizeError)
deriving DecidableEq, Repr

def SearchError.message : SearchError → Except Text.IntegerError Text
  | .line e => e.message
  | .size e => .ok e.message

namespace Document

open Codegen (MemberKind Style)

variable {α : Type} (d : Document) (p : Position) (s : Settings) (room : Text.Room)

/-! ## Lines by their numbers -/

/-- As many numbers as are wanted, from the first on. -/
def numbers (step : Int) : Int → Nat → List Int
  | _, 0 => []
  | first, n + 1 => first :: numbers step (first + step) n

/-- Looks at lines in the order of the numbers, up to the first with a result. -/
def seek (lines : List Text) (test : Int → Text → Option α) :
    List Int → Except SearchError (Option α)
  | [] => .ok none
  | n :: ns =>
    match lineIn lines n with
    | .error e => .error (.line e)
    | .ok line =>
      match test n line with
      | some a => .ok (some a)
      | none => seek lines test ns

def seekClass (line : Int) : Except SearchError (Option ClassDecl) :=
  let first := min line (d.lineCount - 1)
  seek d.lines (fun n l => ClassDecl.find? l n) (numbers (-1) first (first + 1).toNat)

def seekBodyStart : Except SearchError (Option Position) :=
  let first := max p.line 0
  let last := min (p.line + scanLines) d.lineCount
  seek d.lines (fun n l => if l.contains (.char '{') then some ⟨n + 1, 0⟩ else none)
    (numbers 1 first (last - first).toNat)

def seekMemberStart : Except SearchError Position :=
  (d.seekClass p.line).bind fun owner? =>
    match owner? with
    | none => .ok ⟨max p.line 0, 0⟩
    | some owner =>
      let first := min p.line (d.lineCount - 1)
      let stop := max (p.line - scanLines) (-1)
      (seek d.lines (fun n l => if isBlankLine l && owner.startLine ≤ n then some ⟨n, 0⟩ else none)
        (numbers (-1) first (first - stop).toNat)).map fun start? => start?.getD ⟨max p.line 0, 0⟩

/-! ## Texts by their offsets -/

/-- The offset of a position, by the offset at which its line starts. -/
def seekOffset : Except SearchError Nat :=
  let starts := lineStarts d.text
  match starts[(d.clamp p).line.toNat]? with
  | some start => .ok (start + (d.clamp p).character.toNat)
  | none => .error (.line ⟨(d.clamp p).line, starts.length⟩)

def seekText (r : Range) : Except SearchError Text :=
  (d.seekOffset r.start).bind fun start => (d.seekOffset r.stop).map (slice d.text start)

def seekSelected : Except SearchError (Option Selected) :=
  match d.wordRangeAt p with
  | none => .ok none
  | some r =>
    (d.seekText r).bind fun name =>
      (d.seekText ⟨⟨windowStart p, 0⟩, ⟨p.line + signatureWindow, 0⟩⟩).map fun window =>
        (Signature.find? window).bind fun sig =>
          (Parameter.typeOf? sig.parameters name).map fun type =>
            ⟨type, name, windowStart p + (window.take sig.offset).count (.char '\n')⟩

/-! ## What is generated -/

def seekStyle (line : Int) : Except SearchError Style :=
  match d.lineAt line, d.unitError? room s.tabSize with
  | .error e, _ => .error (.line e)
  | .ok _, some e => .error (.size e)
  | .ok l, none =>
    .ok { indent := some (indentOf l), eol := d.eol, unit := some (d.indentUnit s.tabSize) }

def seekMembers : Except SearchError (List Action) :=
  (d.seekSelected p).bind fun selected? =>
    match selected? with
    | none => .ok []
    | some selected =>
      (d.seekBodyStart p).bind fun body? =>
        match body? with
        | none => .ok []
        | some body =>
          (d.seekMemberStart p).bind fun start =>
            (d.seekStyle s room selected.signatureLine).bind fun style =>
              MemberKind.all.mapM fun kind =>
                let member? := Codegen.memberWithin room kind selected.type selected.name s style
                (member?.mapError .size).map fun member =>
                  { title := kind.title
                    command := Action.memberCommand
                    plan := .member
                      { parameterType := selected.type
                        parameterName := selected.name
                        member
                        bodyStart := body
                        constructorStart := start }
                    document := d }

def seekConstructor : Except SearchError (Option Action) :=
  (d.seekClass p.line).bind fun owner? =>
    match owner? with
    | none => .ok none
    | some owner =>
      match d.propertiesOf owner.name with
      | [] => .ok none
      | first :: rest =>
        let properties := first :: rest
        (d.seekStyle s room first.lineNumber).bind fun style =>
          let text? := Codegen.constructorWithin room owner.modifier owner.name
            (properties.map (·.toField)) s style
          (text?.mapError .size).map fun text =>
            some
              { title := Action.constructorTitle
                command := Action.constructorCommand
                plan := .constructor
                  { owner, properties, insertionLine := first.lineNumber, text }
                document := d }

end Document

/-- All actions at a position: those for members first. -/
def Document.offer (d : Document) (p : Position) (s : Settings) (room : Text.Room := none) :
    Except SearchError (List Action) :=
  (d.seekMembers p s room).bind fun members =>
    (d.seekConstructor p s room).map fun constructor? => members ++ constructor?.toList

end CSharpActions
