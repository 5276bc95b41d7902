import CSharpActions.Action.Apply
import CSharpActions.Json.Basic

/-!
# Actions as JSON
-/
namespace CSharpActions

def Position.toJson (p : Position) : Json :=
  .obj [("line", .int p.line), ("character", .int p.character)]

def Edit.toJson (e : Edit) : Json :=
  .obj [("start", e.range.start.toJson), ("end", e.range.stop.toJson), ("new_text", .str e.newText)]

def Codegen.Member.fields (m : Codegen.Member) : List (Text × Json) :=
  [("type", .str m.kind.word), ("declaration", .str m.declaration),
    ("assignment", .str m.assignment)]

def Plan.toJson : Plan → Json
  | .member p =>
    .obj (("parameter_type", .str p.parameterType) :: ("parameter_name", .str p.parameterName) ::
      ("body_start", p.bodyStart.toJson) :: ("constructor_start", p.constructorStart.toJson) ::
      p.member.fields)
  | .constructor p =>
    .obj [("class", .str p.owner.name),
      ("parameters",
        .arr ((Codegen.constructorParameters (p.properties.map (·.toField))).map .str)),
      ("properties", .arr (p.properties.map fun q => .str q.name)),
      ("insertion_line", .int p.insertionLine), ("text", .str p.text)]

def Action.fields (a : Action) : List (Text × Json) :=
  [("title", .str a.title), ("command", .str a.command), ("kind", .str "refactor"),
    ("arguments", a.plan.toJson)]

def Action.toJson (a : Action) : Json := .obj a.fields

/-- The actions of a list with their numbers, counted from the given one. -/
def Action.listJson (first : Nat) (actions : List Action) : Json :=
  .arr ((actions.zipIdx first).map fun (a, i) => .obj (("index", .int i) :: a.fields))

def Applied.toJson (a : Applied) : Json :=
  .obj [("command", .str a.command), ("changed", .bool a.changed),
    ("edits", .arr (a.edits.map Edit.toJson)), ("skipped", .arr (a.skipped.map .str)),
    ("format_edits", .int a.formatEdits.length)]

def Message.toJson (m : Message) : Json :=
  .obj [("level", .str (match m.level with | .info => "info" | .error => "error")),
    ("message", .str m.text)]

end CSharpActions
