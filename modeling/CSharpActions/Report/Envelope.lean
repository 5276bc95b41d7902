import CSharpActions.Json.Basic

/-!
# Envelopes

The JSON output of a command describes itself. What changes from run to run stands under `_meta`,
and the output of a command that writes files is not to be cached.
-/
namespace CSharpActions.Report

def version : Text := "0.3.0"

def writingCommands : List Text := ["apply", "config"]

/-- Sets the fields of the second list in the first one, in order. -/
def overlay (fields more : List (Text × Json)) : List (Text × Json) :=
  more.foldl (fun fields f => Json.setField f.1 f.2 fields) fields

/-- Wraps the output of a command; the payload may replace the fields of the envelope. -/
def envelope (timestamp command : Text) (summary : List (Text × Json))
    (payload : List (Text × Json)) : Json :=
  let head : List (Text × Json) :=
    [("schema", .str "sharpkit-envelope-v1"), ("schema_version", .str "1.0.0"),
      ("command", .str command), ("version", .str version), ("summary", .obj summary)]
  let tail : List (Text × Json) :=
    [("_meta", .obj [("timestamp", .str timestamp),
      ("cacheable", .bool (!writingCommands.contains command))])]
  .obj (overlay (overlay head payload) tail)

end CSharpActions.Report
