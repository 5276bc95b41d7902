import CSharpActions.Lookup
import CSharpActions.Number.Binary64

/-!
# JSON values

Integers and floating point numbers are told apart, and the fields of an object keep the order in
which they were first written.
-/
namespace CSharpActions

inductive Json where
  | null
  | bool (b : Bool)
  | int (n : Int)
  | float (x : Binary64)
  | str (s : Text)
  | arr (items : List Json)
  | obj (fields : List (Text × Json))

namespace Json

instance : Inhabited Json := ⟨.null⟩

/-- Sets a field: in its place if it is there, else at the end. -/
def setField (key : Text) (value : α) : List (Text × α) → List (Text × α)
  | [] => [(key, value)]
  | (k, v) :: r => if k = key then (k, value) :: r else (k, v) :: setField key value r

def removeField (key : Text) (fields : List (Text × α)) : List (Text × α) :=
  fields.filter fun f => f.1 ≠ key

theorem lookup_setField (key k : Text) (value : α) (fields : List (Text × α)) :
    (setField key value fields).lookup k = if k = key then some value else fields.lookup k := by
  induction fields with
  | nil => simp [setField, Lookup.lookup_cons_ite]
  | cons f r ih =>
    obtain ⟨j, v⟩ := f
    unfold setField
    split
    · rename_i h
      rw [Lookup.lookup_cons_ite, Lookup.lookup_cons_ite, h]
      grind
    · rw [Lookup.lookup_cons_ite, Lookup.lookup_cons_ite, ih]
      grind

theorem lookup_removeField (key k : Text) (fields : List (Text × α)) :
    (removeField key fields).lookup k = if k = key then none else fields.lookup k :=
  Lookup.lookup_filter_ne key k fields

/-- The value of a field of an object. -/
def field? (key : Text) : Json → Option Json
  | .obj fields => fields.lookup key
  | _ => none

def text? : Json → Option Text
  | .str s => some s
  | _ => none

def int? : Json → Option Int
  | .int n => some n
  | _ => none

def bool? : Json → Option Bool
  | .bool b => some b
  | _ => none

def items? : Json → Option (List Json)
  | .arr items => some items
  | _ => none

def fields? : Json → Option (List (Text × Json))
  | .obj fields => some fields
  | _ => none

end Json

end CSharpActions
