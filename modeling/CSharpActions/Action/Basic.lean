import CSharpActions.Codegen.Constructor
import CSharpActions.Declaration.Enclosing
import CSharpActions.Declaration.Parameter
import CSharpActions.Declaration.Signature

/-!
# Code actions

What can be offered at a position: to initialise a member from the constructor parameter under the
cursor, and to write a constructor for the properties of the enclosing class. Offering an action
changes nothing; it carries the plan that its command carries out.
-/
namespace CSharpActions

open Codegen (Member MemberKind Field Style)

structure MemberPlan where
  parameterType : Text
  parameterName : Text
  member : Member
  bodyStart : Position
  constructorStart : Position
deriving DecidableEq, Repr

structure ConstructorPlan where
  owner : ClassDecl
  properties : List PropertyDecl
  insertionLine : Nat
  text : Text
deriving DecidableEq, Repr

inductive Plan where
  | member (plan : MemberPlan)
  | constructor (plan : ConstructorPlan)
deriving DecidableEq, Repr

structure Action where
  title : Text
  command : Text
  plan : Plan
  document : Document
deriving DecidableEq, Repr

namespace Action

def constructorCommand : Text := "sharpkit.ctorFromProperties"

def memberCommand : Text := "sharpkit.initializeMemberFromCtor"

def constructorTitle : Text := "Initialize ctor from properties..."

end Action

def PropertyDecl.toField (p : PropertyDecl) : Field := ⟨p.type, p.name⟩

namespace Document

variable (d : Document)

/-- How many lines above and below the cursor are searched for a signature. -/
def signatureWindow : Int := 2

/-- A parameter that the cursor selects, with the line on which its signature starts. -/
structure Selected where
  type : Text
  name : Text
  signatureLine : Nat
deriving DecidableEq, Repr

def windowStart (p : Position) : Nat := (p.line - signatureWindow).toNat

/-- The lines around a position in which a signature is searched. -/
def window (p : Position) : Text := d.textIn ⟨⟨windowStart p, 0⟩, ⟨p.line + signatureWindow, 0⟩⟩

/-- The parameter that the word at a position names, in the first signature around it. -/
def selectedParameter (p : Position) : Option Selected :=
  (d.wordRangeAt p).bind fun r =>
    let name := d.textIn r
    (Signature.find? (d.window p)).bind fun s =>
      (Parameter.typeOf? s.parameters name).map fun type =>
        ⟨type, name, windowStart p + ((d.window p).take s.offset).count (.char '\n')⟩

def styleAt (s : Settings) (line : Nat) : Style :=
  { indent := some (indentOf (d.lines.getD line [])), eol := d.eol,
    unit := some (d.indentUnit s.tabSize) }

/-- The actions that initialise a member of each kind from the parameter at a position. -/
def memberActions (p : Position) (s : Settings) : List Action :=
  match d.selectedParameter p, d.bodyStart p with
  | some selected, some body =>
    MemberKind.all.map fun kind =>
      { title := kind.title
        command := Action.memberCommand
        plan := .member
          { parameterType := selected.type
            parameterName := selected.name
            member := Codegen.generateMember kind selected.type selected.name s
              (d.styleAt s selected.signatureLine)
            bodyStart := body
            constructorStart := d.memberStart p }
        document := d }
  | _, _ => []

/-- The action that writes a constructor for the properties of the class around a position. -/
def constructorAction (p : Position) (s : Settings) : Option Action :=
  (d.enclosingClass p.line).bind fun owner =>
    match d.propertiesOf owner.name with
    | [] => none
    | first :: rest =>
      let properties := first :: rest
      some
        { title := Action.constructorTitle
          command := Action.constructorCommand
          plan := .constructor
            { owner, properties
              insertionLine := first.lineNumber
              text := Codegen.generateConstructor owner.modifier owner.name
                (properties.map (·.toField)) s (d.styleAt s first.lineNumber) }
          document := d }

/-- All actions at a position: those for members first. -/
def actionsAt (p : Position) (s : Settings) : List Action :=
  d.memberActions p s ++ (d.constructorAction p s).toList

end Document

end CSharpActions
