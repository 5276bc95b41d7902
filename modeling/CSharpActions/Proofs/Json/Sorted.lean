import CSharpActions.Json.Printer
import CSharpActions.Proofs.FileTree.Search

/-!
# Objects in the order of their names

A document lists the fields of each object in the order of their names. Two values that differ in
the order of fields only have one sorted form.
-/
namespace CSharpActions

namespace Text

theorem le_trans {a b c : Text} (hab : le a b = true) (hbc : le b c = true) : le a c = true := by
  rw [le_iff, not_lt] at *
  exact hab.trans hbc

theorem le_or_le (a b : Text) : (le a b || le b a) = true := by
  rw [Bool.or_eq_true, le_iff, le_iff, not_lt, not_lt]
  exact le_total _ _

end Text

namespace Json

variable {α β : Type} {key : Text} {fields : List (Text × α)}

/-! ## Sorting fields -/

theorem mem_sortFields {f : Text × α} : f ∈ sortFields fields ↔ f ∈ fields := List.mem_mergeSort

theorem perm_sortFields (fields : List (Text × α)) : (sortFields fields).Perm fields :=
  List.mergeSort_perm _ _

theorem sortFields_sortFields (fields : List (Text × α)) :
    sortFields (sortFields fields) = sortFields fields := by
  have hpairwise : (sortFields fields).Pairwise fun a b => Text.le a.1 b.1 = true := by
    refine List.pairwise_mergeSort ?_ ?_ fields
    · exact fun _ _ _ => Text.le_trans
    · exact fun a b => Text.le_or_le a.1 b.1
  exact List.mergeSort_of_pairwise hpairwise

theorem sortFields_map (g : α → β) (fields : List (Text × α)) :
    sortFields (fields.map fun f => (f.1, g f.2)) = (sortFields fields).map fun f => (f.1, g f.2) := by
  have hmap := List.map_mergeSort (f := fun f : Text × α => (f.1, g f.2)) (l := fields)
    (r := fun a b => Text.le a.1 b.1) (s := fun a b => Text.le a.1 b.1) fun _ _ _ _ => rfl
  exact hmap.symm

theorem lookup_eq_some_iff_mem (h : (fields.map Prod.fst).Nodup) {v : α} :
    fields.lookup key = some v ↔ (key, v) ∈ fields := by
  induction fields with
  | nil => simp
  | cons f r ih =>
    obtain ⟨k, u⟩ := f
    rw [List.map_cons, List.nodup_cons] at h
    rw [Lookup.lookup_cons_ite, List.mem_cons, ← ih h.2, Prod.mk.injEq]
    by_cases hk : key = k
    · have hnone : r.lookup key ≠ some v := by
        intro hl
        have hmem := List.mem_map_of_mem (f := Prod.fst) ((ih h.2).mp hl)
        exact h.1 (hk ▸ hmem)
      simp [hk, hk ▸ hnone, eq_comm]
    · simp [hk]

theorem lookup_sortFields (h : (fields.map Prod.fst).Nodup) (key : Text) :
    (sortFields fields).lookup key = fields.lookup key := by
  have hsorted : ((sortFields fields).map Prod.fst).Nodup :=
    (((perm_sortFields fields).map Prod.fst).nodup_iff).mpr h
  ext v
  rw [lookup_eq_some_iff_mem hsorted, lookup_eq_some_iff_mem h, mem_sortFields]

theorem lookup_map (g : α → β) (fields : List (Text × α)) (key : Text) :
    (fields.map fun f => (f.1, g f.2)).lookup key = (fields.lookup key).map g := by
  induction fields with
  | nil => rfl
  | cons f r ih =>
    rw [List.map_cons, Lookup.lookup_cons_ite, ih]
    obtain ⟨k, v⟩ := f
    rw [Lookup.lookup_cons_ite]
    split <;> rfl

/-! ## Sorted values -/

mutual

/-- The value with the fields of every object in it in the order of their names. -/
def sorted : Json → Json
  | .null => .null
  | .bool b => .bool b
  | .int n => .int n
  | .float x => .float x
  | .str s => .str s
  | .arr items => .arr (sortedItems items)
  | .obj fields => .obj (sortFields (sortedFields fields))

def sortedItems : List Json → List Json
  | [] => []
  | v :: r => sorted v :: sortedItems r

def sortedFields : List (Text × Json) → List (Text × Json)
  | [] => []
  | (k, v) :: r => (k, sorted v) :: sortedFields r

end

theorem sortedItems_eq (items : List Json) : sortedItems items = items.map sorted := by
  induction items with
  | nil => rfl
  | cons v r ih => rw [sortedItems, ih, List.map_cons]

theorem sortedFields_eq (fields : List (Text × Json)) :
    sortedFields fields = fields.map fun f => (f.1, f.2.sorted) := by
  induction fields with
  | nil => rfl
  | cons f r ih => rw [sortedFields, ih, List.map_cons]

theorem sorted_arr (items : List Json) : (arr items).sorted = arr (items.map sorted) := by
  rw [sorted, sortedItems_eq]

theorem sorted_obj (fields : List (Text × Json)) :
    (obj fields).sorted = obj ((sortFields fields).map fun f => (f.1, f.2.sorted)) := by
  rw [sorted, sortedFields_eq, sortFields_map]

mutual

theorem sorted_sorted : ∀ v : Json, v.sorted.sorted = v.sorted
  | .null => rfl
  | .bool _ => rfl
  | .int _ => rfl
  | .float _ => rfl
  | .str _ => rfl
  | .arr items => by
    rw [sorted_arr, sorted_arr, List.map_map]
    exact congrArg arr (List.map_congr_left (sorted_sorted_of_mem items))
  | .obj fields => by
    rw [sorted_obj, sorted_obj, sortFields_map, sortFields_sortFields, List.map_map]
    refine congrArg obj (List.map_congr_left fun f hf => ?_)
    exact congrArg (Prod.mk f.1) (sorted_sorted_of_mem_fields fields f (mem_sortFields.mp hf))

theorem sorted_sorted_of_mem : ∀ items : List Json, ∀ v ∈ items, v.sorted.sorted = v.sorted
  | [] => by simp
  | v :: r => List.forall_mem_cons.mpr ⟨sorted_sorted v, sorted_sorted_of_mem r⟩

theorem sorted_sorted_of_mem_fields :
    ∀ fields : List (Text × Json), ∀ f ∈ fields, f.2.sorted.sorted = f.2.sorted
  | [] => by simp
  | (_, v) :: r => List.forall_mem_cons.mpr ⟨sorted_sorted v, sorted_sorted_of_mem_fields r⟩

end

/-! ## Equal dictionaries -/

/-- The same names stand for the same values, in whatever order the fields are. -/
def SameFields (a b : List (Text × Json)) : Prop :=
  ∀ key, (a.lookup key).map sorted = (b.lookup key).map sorted

variable {a b : List (Text × Json)}

theorem SameFields.refl (a : List (Text × Json)) : SameFields a a := fun _ => rfl

theorem SameFields.trans {c : List (Text × Json)} (hab : SameFields a b) (hbc : SameFields b c) :
    SameFields a c := fun key => (hab key).trans (hbc key)

theorem SameFields.setField (h : SameFields a b) (key : Text) (value : Json) :
    SameFields (setField key value a) (setField key value b) := by
  intro k
  rw [lookup_setField, lookup_setField]
  split
  · rfl
  · exact h k

theorem SameFields.removeField (h : SameFields a b) (key : Text) :
    SameFields (removeField key a) (removeField key b) := by
  intro k
  rw [lookup_removeField, lookup_removeField]
  split
  · rfl
  · exact h k

/-- Sorting does not change what the names stand for. -/
theorem lookup_of_eq_sorted (hn : (b.map Prod.fst).Nodup) (h : obj a = (obj b).sorted) (key : Text) :
    a.lookup key = (b.lookup key).map sorted := by
  rw [sorted_obj] at h
  rw [obj.inj h, lookup_map, lookup_sortFields hn]

theorem sameFields_of_eq_sorted (hn : (b.map Prod.fst).Nodup) (h : obj a = (obj b).sorted) :
    SameFields a b := by
  intro key
  rw [lookup_of_eq_sorted hn h, Option.map_map]
  exact congrArg (Option.map · (b.lookup key)) (funext sorted_sorted)

end Json

end CSharpActions
