import CSharpActions.Text.Basic
import CSharpActions.Text.Utf8
import Mathlib.Algebra.Order.BigOperators.Group.List
import Mathlib.Algebra.Order.Ring.Nat

/-!
# Texts in parts

Splitting undoes joining where no part holds the separator, and the parts that are joined have a
size.
-/
namespace CSharpActions

namespace Text

theorem splitOn_of_not_mem {sep : CodePoint} {s : Text} (h : sep ∉ s) : splitOn sep s = [s] := by
  induction s with
  | nil => rfl
  | cons c s ih =>
    obtain ⟨hc, hs⟩ := List.ne_and_not_mem_of_not_mem_cons h
    rw [splitOn, if_neg (Ne.symm hc), ih hs]
    rfl

theorem splitOn_append_cons {sep : CodePoint} {s : Text} (h : sep ∉ s) (t : Text) :
    splitOn sep (s ++ sep :: t) = s :: splitOn sep t := by
  induction s with
  | nil => simp [splitOn]
  | cons c s ih =>
    obtain ⟨hc, hs⟩ := List.ne_and_not_mem_of_not_mem_cons h
    rw [List.cons_append, splitOn, if_neg (Ne.symm hc), ih hs]
    rfl

theorem not_mem_of_mem_splitOn {sep : CodePoint} {t s : Text} (h : s ∈ splitOn sep t) :
    sep ∉ s := by
  induction t generalizing s with
  | nil => simp_all [splitOn]
  | cons c r ih =>
    rw [splitOn] at h
    split at h
    · rcases List.mem_cons.mp h with rfl | h
      · simp
      · exact ih h
    · rename_i hc
      obtain ⟨a, l, hl⟩ := List.exists_cons_of_ne_nil (splitOn_ne_nil sep r)
      rw [hl, List.modifyHead_cons] at h
      rcases List.mem_cons.mp h with rfl | h
      · exact List.not_mem_cons_of_ne_of_not_mem (Ne.symm hc) (ih (by simp [hl]))
      · exact ih (by simp [hl, h])

theorem subset_of_mem_splitOn {sep : CodePoint} {t s : Text} (h : s ∈ splitOn sep t) : s ⊆ t := by
  induction t generalizing s with
  | nil => simp_all [splitOn]
  | cons c r ih =>
    rw [splitOn] at h
    split at h
    · rcases List.mem_cons.mp h with rfl | h
      · exact List.nil_subset _
      · exact List.subset_cons_of_subset c (ih h)
    · obtain ⟨a, l, hl⟩ := List.exists_cons_of_ne_nil (splitOn_ne_nil sep r)
      rw [hl, List.modifyHead_cons] at h
      rcases List.mem_cons.mp h with rfl | h
      · exact List.cons_subset_cons c (ih (by simp [hl]))
      · exact List.subset_cons_of_subset c (ih (by simp [hl, h]))

theorem splitOn_intercalate {sep : CodePoint} {ps : List Text} (hne : ps ≠ [])
    (h : ∀ p ∈ ps, sep ∉ p) : splitOn sep (List.intercalate [sep] ps) = ps := by
  induction ps with
  | nil => exact absurd rfl hne
  | cons p ps ih =>
    have hp : sep ∉ p := h p (by simp)
    cases ps with
    | nil => simpa [List.intercalate] using splitOn_of_not_mem hp
    | cons q ps =>
      have hrest := ih (by simp) fun r hr => h r (List.mem_cons_of_mem p hr)
      rw [List.intercalate_cons_cons, List.append_assoc, List.singleton_append,
        splitOn_append_cons hp, hrest]

namespace Utf8

theorem size_eq_sum (t : Text) : size t = (t.map charSize).sum := by
  rw [size, List.sum_eq_foldl, List.foldl_map]

theorem size_append (s t : Text) : size (s ++ t) = size s + size t := by
  simp [size_eq_sum]

/-- A part counts one more for the separator that ends it, but for the last one. -/
theorem size_intercalate {sep : CodePoint} (hsep : charSize sep = 1) (ps : List Text) :
    size (List.intercalate [sep] ps) = (ps.map fun p => size p + 1).sum - 1 := by
  induction ps with
  | nil => rfl
  | cons p ps ih =>
    cases ps with
    | nil => simp [List.intercalate]
    | cons q ps =>
      have hone : size [sep] = 1 := by simpa [size_eq_sum] using hsep
      rw [List.intercalate_cons_cons, size_append, size_append, ih, hone]
      simp only [List.map_cons, List.sum_cons]
      omega

/-- With fewer parts a text is no larger. -/
theorem size_intercalate_le {sep : CodePoint} (hsep : charSize sep = 1) {ps qs : List Text}
    (h : ps.Sublist qs) : size (List.intercalate [sep] ps) ≤ size (List.intercalate [sep] qs) := by
  rw [size_intercalate hsep, size_intercalate hsep]
  have hsum := (h.map fun p => size p + 1).sum_le_sum fun n _ => Nat.zero_le n
  omega

end Utf8

end Text

end CSharpActions
