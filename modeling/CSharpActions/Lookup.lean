/-!
# Association lists

What a lookup finds after an entry was put in front or after all entries of a key were dropped.
-/
namespace CSharpActions.Lookup

universe u v

variable {κ : Type u} {α : Type v} [BEq κ] [LawfulBEq κ] [DecidableEq κ]

theorem lookup_cons_ite (k m : κ) (v : α) (r : List (κ × α)) :
    ((k, v) :: r).lookup m = if m = k then some v else r.lookup m := by
  rw [List.lookup_cons]
  by_cases h : m = k
  · simp [h]
  · rw [if_neg h, beq_false_of_ne h]

theorem lookup_filter_ne (k m : κ) (r : List (κ × α)) :
    (r.filter fun e => e.1 ≠ k).lookup m = if m = k then none else r.lookup m := by
  induction r with
  | nil => simp
  | cons e r ih =>
    obtain ⟨j, v⟩ := e
    rw [lookup_cons_ite]
    by_cases hj : j = k
    · rw [List.filter_cons_of_neg (by simpa using hj), ih]
      grind
    · rw [List.filter_cons_of_pos (by simpa using hj), lookup_cons_ite, ih]
      grind

end CSharpActions.Lookup
