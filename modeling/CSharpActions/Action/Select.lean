import CSharpActions.Action.Basic
import CSharpActions.Text.Integer

/-!
# Choosing an action

An action is chosen by its number, counted from one, or by its title: the whole title in any
letter case, or a part that only one of the titles has. The titles have no letter that a character
beyond ASCII turns into, so that lower case of ASCII suffices.
-/
namespace CSharpActions.Action

inductive Choice where
  | index (n : Int)
  | title (t : Text)
deriving DecidableEq, Repr

inductive NoAction where
  | index (n : Int) (available : Nat)
  | title (t : Text)
deriving DecidableEq, Repr

def NoAction.message : NoAction → Except Text.IntegerError Text
  | .index n available =>
    (Text.writeInt n).map fun number =>
      "No code action #" ++ number ++ " here (" ++ Text.ofNat available ++ " available)."
  | .title t => .ok ("No code action titled " ++ Text.quoted t ++ " here.")

def lowerAscii (t : Text) : Text := t.map CodePoint.toLower

def byTitle? (available : List Action) (title : Text) : Option Action :=
  let wanted := lowerAscii (Text.trim title)
  match available.find? fun a => lowerAscii a.title = wanted with
  | some a => some a
  | none =>
    match available.filter fun a => Text.occursIn wanted (lowerAscii a.title) with
    | [a] => some a
    | _ => none

def select (available : List Action) : Choice → Except NoAction Action
  | .index n =>
    if n < 1 then .error (.index n available.length)
    else
      match available[(n - 1).toNat]? with
      | some a => .ok a
      | none => .error (.index n available.length)
  | .title t =>
    match byTitle? available t with
    | some a => .ok a
    | none => .error (.title t)

end CSharpActions.Action
