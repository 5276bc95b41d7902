import CSharpActions.Json.Parser

/-!
# JSON project manifests
-/
namespace CSharpActions.Manifest

/-- The string under `defaultNamespace` in the object under `tooling`. A text that is not JSON
declares nothing; one that exceeds a bound of JSON texts is an error. -/
def rootNamespace (nesting : Nat) (text : Text) : Except Json.Limit (Option Text) :=
  match Json.parse nesting text with
  | .error .malformed => .ok none
  | .error (.limit l) => .error l
  | .ok v =>
    .ok ((v.field? "tooling").bind fun tooling =>
      (tooling.field? "defaultNamespace").bind Json.text?)

end CSharpActions.Manifest
