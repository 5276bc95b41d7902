import CSharpActions.Text.Blank
import CSharpActions.Text.Digit
import CSharpActions.Text.LetterCase

/-!
# Names of parameters and members

Only the first character of a name changes its case.
-/
namespace CSharpActions.Codegen

/-- The parameter name for a property; a name of digits alone has none. -/
def camelize (name : Text) : Text :=
  match Text.trim name with
  | [] => []
  | c :: r => if (c :: r).all Text.isDigit then [] else Text.lower c ++ r

def capitalize : Text → Text
  | [] => []
  | c :: r => Text.upper c ++ r

end CSharpActions.Codegen
