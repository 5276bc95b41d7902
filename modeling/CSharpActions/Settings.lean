import CSharpActions.Document

/-!
# Settings

What a user can choose about generated code.
-/
namespace CSharpActions

structure Settings where
  tabSize : Int := 4
  useThis : Bool := true
  privatePrefix : Text := []
  reformat : Bool := true
deriving DecidableEq, Repr

/-- As many spaces as the levels take. -/
def Settings.indent (s : Settings) (levels : Int) : Text := Document.spaces (s.tabSize * levels)

/-- What keeps these spaces from being put together. -/
def Settings.indentError? (s : Settings) (room : Text.Room) (levels : Int) :
    Option Text.SizeError :=
  Text.copiesError? room 1 (s.tabSize * levels)

end CSharpActions
