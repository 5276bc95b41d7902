import CSharpActions.Action.Basic
import CSharpActions.FileTree.Error
import CSharpActions.Layout.Indent

/-!
# Carrying out actions

A plan becomes a batch of edits, which a sink commits; a second batch may indent the result. A
rejected batch is reported to the host, and what the sink has accepted before stays.
-/
namespace CSharpActions

/-- Why a sink refuses a batch. -/
inductive Rejection where
  | noPath
  | unreadable (path : Text) (cause : FileError)
  | changed (path : Text)
  | unwritable (path : Text) (cause : FileError)
  | refused (reason : Text)
deriving DecidableEq, Repr

def Rejection.message : Rejection → Text
  | .noPath => "document has no file path"
  | .unreadable path cause => "cannot read " ++ path ++ ": " ++ cause.message
  | .changed path => path ++ " changed on disk since it was analysed"
  | .unwritable path cause => "cannot write " ++ path ++ ": " ++ cause.message
  | .refused reason => reason

inductive SinkError where
  | rejected (why : Rejection)
  | invalid (edit : EditError)
  | system (cause : FileError)
  /-- The new text holds half of a surrogate pair. -/
  | unencodable
  | size (e : Text.SizeError)
deriving DecidableEq, Repr

/-- The text after a batch, if it can be built. -/
def Document.edited (d : Document) (edits : List Edit) (room : Text.Room := none) :
    Except SinkError Text :=
  match d.applyEdits edits, d.editsError? room edits with
  | .error e, _ => .error (.invalid e)
  | .ok _, some e => .error (.size e)
  | .ok t, none => .ok t

theorem Document.edited_eq (d : Document) (edits : List Edit) :
    d.edited edits = (d.applyEdits edits).mapError .invalid := by
  rw [edited, editsError?_none]
  cases d.applyEdits edits <;> rfl

theorem Document.edited_eq_ok_iff {d : Document} {edits : List Edit} {t : Text} :
    d.edited edits = .ok t ↔ d.applyEdits edits = .ok t := by
  rw [edited_eq]
  cases d.applyEdits edits with
  | error e => exact ⟨nofun, nofun⟩
  | ok text =>
    constructor
    · intro h
      rw [Except.ok.inj h]
    · intro h
      rw [Except.ok.inj h]
      rfl

/-- Commits batches of edits, each against one snapshot. -/
structure Sink (σ : Type) where
  apply : Document → List Edit → σ → Except SinkError Document × σ

/-- What a sink in memory has seen. -/
structure Memory where
  batches : List (List Edit) := []
  /-- The result of the last batch. -/
  document : Option Document := none
deriving DecidableEq, Repr

/-- The text that the sink holds, or the given one before the first batch. -/
def Memory.textAfter (m : Memory) (text : Text) : Text := (m.document.map (·.text)).getD text

/-- Keeps results in memory; with a limit it refuses all batches beyond that number. -/
def memorySink (limit : Option (Nat × Text)) (room : Text.Room := none) : Sink Memory where
  apply d edits m :=
    match limit with
    | some (n, reason) =>
      if n ≤ m.batches.length then (.error (.rejected (.refused reason)), m)
      else accept d edits m
    | none => accept d edits m
where
  accept (d : Document) (edits : List Edit) (m : Memory) : Except SinkError Document × Memory :=
    let m := { m with batches := m.batches ++ [edits] }
    match d.edited edits room with
    | .ok t => (.ok (d.withText t), { m with document := some (d.withText t) })
    | .error e => (.error e, m)

inductive Level where
  | info
  | error
deriving DecidableEq, Repr

/-- A message to the user. -/
structure Message where
  level : Level
  text : Text
deriving DecidableEq, Repr

/-- What carrying out an action did. -/
structure Applied where
  command : Text
  edits : List Edit := []
  skipped : List Text := []
  formatEdits : List Edit := []
  document : Document
deriving DecidableEq, Repr

def Applied.changed (a : Applied) : Bool := !(a.edits.isEmpty && a.formatEdits.isEmpty)

inductive PlanKind where
  | member
  | constructor
deriving DecidableEq, Repr

def PlanKind.noun : PlanKind → Text
  | .member => "an InitializeMemberPlan"
  | .constructor => "a ConstructorFromPropertiesPlan"

inductive ApplyError where
  | rejected (command : Text) (why : Rejection)
  | unknownCommand (command : Text)
  | wrongPlan (command : Text) (expected : PlanKind)
  | invalid (edit : EditError)
  | system (cause : FileError)
  | unencodable
  | emptyUnit
  | size (e : Text.SizeError)
deriving DecidableEq, Repr

def ApplyError.message : ApplyError → Text
  | .rejected command why => "Could not apply '" ++ command ++ "': " ++ why.message
  | .unknownCommand command => "unknown command: " ++ command
  | .wrongPlan command expected => command ++ " expects " ++ expected.noun
  | .invalid edit => edit.message
  | .system cause => cause.message
  | .unencodable => Text.unencodableMessage
  | .emptyUnit => Layout.Failure.emptyUnit.message
  | .size e => e.message

/-- The settings of a run, and whether a formatter is at hand. -/
structure Host where
  settings : Settings := {}
  formats : Bool := true
deriving DecidableEq, Repr

structure Outcome (σ : Type) where
  result : Except ApplyError Applied
  messages : List Message := []
  sink : σ

namespace Action

def ofSinkError (command : Text) : SinkError → ApplyError
  | .rejected why => .rejected command why
  | .invalid edit => .invalid edit
  | .system cause => .system cause
  | .unencodable => .unencodable
  | .size e => .size e

def ofLayout : Layout.Failure → ApplyError
  | .emptyUnit => .emptyUnit
  | .size e => .size e

/-- A failed batch: a rejection is also reported to the user. -/
def fail (command : Text) (e : SinkError) (s : σ) : Outcome σ :=
  let error := ofSinkError command e
  match e with
  | .rejected _ => ⟨.error error, [⟨.error, error.message⟩], s⟩
  | _ => ⟨.error error, [], s⟩

/-- Commits the edits, then the edits that indent the result. -/
def commit (host : Host) (sink : Sink σ) (a : Applied) (s : σ) (room : Text.Room := none) :
    Outcome σ :=
  if a.edits.isEmpty then ⟨.ok a, [], s⟩
  else
    match sink.apply a.document a.edits s with
    | (.error e, s) => fail a.command e s
    | (.ok updated, s) =>
      let a := { a with document := updated }
      if host.settings.reformat && host.formats then
        match Layout.format updated host.settings.tabSize room with
        | .error e => ⟨.error (ofLayout e), [], s⟩
        | .ok [] => ⟨.ok a, [], s⟩
        | .ok formatEdits =>
          match sink.apply updated formatEdits s with
          | (.error e, s) => fail a.command e s
          | (.ok final, s) => ⟨.ok { a with document := final, formatEdits }, [], s⟩
      else ⟨.ok a, [], s⟩

/-- Whether a fragment stands anywhere in a text, leaving out the blanks around it. -/
def present (text fragment : Text) : Bool := Text.occursIn (Text.trim fragment) text

/-- The places and fragments of a member plan. -/
def memberFragments (plan : MemberPlan) : List (Position × Text) :=
  [(plan.constructorStart, plan.member.declaration), (plan.bodyStart, plan.member.assignment)]

/-- The insertions for the fragments that are not there yet. -/
def memberEdits (text : Text) (plan : MemberPlan) : List Edit :=
  ((memberFragments plan).filter fun f => !present text f.2).map fun f => Edit.insert f.1 f.2

/-- The fragments that are there already. -/
def memberSkipped (text : Text) (plan : MemberPlan) : List Text :=
  ((memberFragments plan).filter fun f => present text f.2).map fun f => Text.trim f.2

def constructorEdits (plan : ConstructorPlan) : List Edit :=
  [Edit.insert ⟨plan.insertionLine, 0⟩ plan.text]

def executeMember (a : Action) (plan : MemberPlan) (host : Host) (sink : Sink σ) (s : σ)
    (room : Text.Room := none) : Outcome σ :=
  let edits := memberEdits a.document.text plan
  let skipped := memberSkipped a.document.text plan
  let note : List Message :=
    if edits.isEmpty && !skipped.isEmpty then
      [⟨.info, plan.parameterName ++ " is already initialized"⟩]
    else []
  let outcome :=
    commit host sink { command := a.command, edits, skipped, document := a.document } s room
  { outcome with messages := note ++ outcome.messages }

def executeConstructor (a : Action) (plan : ConstructorPlan) (host : Host) (sink : Sink σ)
    (s : σ) (room : Text.Room := none) : Outcome σ :=
  commit host sink
    { command := a.command, edits := constructorEdits plan, document := a.document } s room

/-- Carries out an action by its command, which has to fit the plan. -/
def execute (a : Action) (host : Host) (sink : Sink σ) (s : σ) (room : Text.Room := none) :
    Outcome σ :=
  if a.command = constructorCommand then
    match a.plan with
    | .constructor plan => executeConstructor a plan host sink s room
    | .member _ => ⟨.error (.wrongPlan a.command .constructor), [], s⟩
  else if a.command = memberCommand then
    match a.plan with
    | .member plan => executeMember a plan host sink s room
    | .constructor _ => ⟨.error (.wrongPlan a.command .member), [], s⟩
  else ⟨.error (.unknownCommand a.command), [], s⟩

end Action

end CSharpActions
