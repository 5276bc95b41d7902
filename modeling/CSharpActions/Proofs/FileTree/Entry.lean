import CSharpActions.FileTree.Basic
import CSharpActions.Proofs.Text.Numeral
import Mathlib.Data.List.Nodup
import Mathlib.Data.List.Perm.Subperm

/-!
# Entries of a file tree

There is always a free name for a new file, and a new file that is removed again leaves no trace.
A path that leads to a file leads to the location that its words name, also after another content
has been put there.
-/
namespace CSharpActions

namespace FileTree

open Text.Utf8 (Bytes)

variable {t t' : FileTree} {l m : Location}

/-! ## New entries -/

theorem mem_of_node? (h : t.node? l ≠ none) (hl : l ≠ []) : l ∈ t.nodes.map Prod.fst := by
  rw [node?, if_neg (by simpa using hl)] at h
  obtain ⟨n, hn⟩ := Option.ne_none_iff_exists'.mp h
  obtain ⟨before, after, he, -⟩ := List.lookup_eq_some_iff.mp hn
  rw [he]
  simp

theorem exists_freshIn (t : FileTree) (dir : Location) {name : Nat → Text}
    (hn : Function.Injective name) :
    ∃ n, t.freshIn dir name = dir ++ [name n] ∧ t.node? (dir ++ [name n]) = none := by
  set candidates := (List.range (t.nodes.length + 1)).map fun n => dir ++ [name n] with hc
  have hinj : Function.Injective fun n => dir ++ [name n] := by
    intro a b hab
    simpa using hn (by simpa using hab)
  have hnodup : candidates.Nodup := List.Nodup.map hinj List.nodup_range
  cases hf : candidates.find? fun l => (t.node? l).isNone with
  | some l =>
    obtain ⟨n, -, rfl⟩ := List.mem_map.mp (List.mem_of_find?_eq_some hf)
    refine ⟨n, ?_, by simpa using List.find?_some hf⟩
    rw [freshIn, ← hc, hf, Option.getD_some]
  | none =>
    -- all candidates are taken, but there are fewer entries than candidates
    have hsub : candidates ⊆ t.nodes.map Prod.fst := by
      intro l hl
      have hnode : t.node? l ≠ none := by simpa using List.find?_eq_none.mp hf l hl
      obtain ⟨n, -, rfl⟩ := List.mem_map.mp hl
      exact mem_of_node? hnode (by simp)
    have hle := (List.subperm_of_subset hnodup hsub).length_le
    rw [hc, List.length_map, List.length_map, List.length_range] at hle
    omega

theorem filter_eq_self_of_node? (hl : l ≠ []) (h : t.node? l = none) :
    (t.nodes.filter fun e => e.1 ≠ l) = t.nodes := by
  rw [List.filter_eq_self]
  intro e he
  rw [node?, if_neg (by simpa using hl), List.lookup_eq_none_iff] at h
  rw [decide_eq_true_iff]
  intro hel
  simpa [hel] using h e he

/-- A new entry that is removed leaves the tree as it was. -/
theorem remove_put (hl : l ≠ []) (h : t.node? l = none) (n : Node) : (t.put l n).remove l = t := by
  have hf := filter_eq_self_of_node? hl h
  rw [put, remove]
  simp only [hf]
  rw [List.filter_cons_of_neg (by simp), hf]

theorem put_put (t : FileTree) (l : Location) (n n' : Node) : (t.put l n).put l n' = t.put l n' := by
  have hf : (((l, n) :: t.nodes.filter fun e => e.1 ≠ l).filter fun e => e.1 ≠ l) =
      t.nodes.filter fun e => e.1 ≠ l := by
    rw [List.filter_cons_of_neg (by simp), List.filter_filter]
    simp
  rw [put, put, hf, put]

/-! ## Walks -/

/-- The trees have the same directories and the same other entries. -/
def SameShape (t t' : FileTree) : Prop :=
  ∀ l, (t'.node? l).map (fun n => decide (n = .directory)) =
    (t.node? l).map fun n => decide (n = .directory)

theorem walk_eq_of_sameShape (h : SameShape t t') (l : Location) (parts : List Text) :
    t'.walk l parts = t.walk l parts := by
  induction parts generalizing l with
  | nil =>
    have hl := congrArg Option.isSome (h l)
    rw [Option.isSome_map, Option.isSome_map] at hl
    rw [walk, walk, hl]
  | cons part rest ih =>
    have hl := h l
    rw [walk, walk]
    cases ht : t.node? l with
    | none =>
      rw [ht] at hl
      rw [Option.map_eq_none_iff.mp hl]
    | some n =>
      rw [ht, Option.map_some, Option.map_eq_some_iff] at hl
      obtain ⟨n', hn', hd⟩ := hl
      rw [hn']
      cases n <;> cases n' <;> simp_all

theorem eq_of_walk {parts : List Text} (h : t.walk l parts = .ok m) :
    m = parts.foldl Path.step l := by
  induction parts generalizing l with
  | nil =>
    rw [walk] at h
    split at h
    · exact (Except.ok.inj h).symm
    · simp at h
  | cons part rest ih =>
    rw [walk] at h
    split at h
    · simp at h
    · simp at h
    · split at h
      · simp at h
      · exact ih h

variable {cwd : Location} {path : Text} {content : Bytes}

/-! ## Paths that are refused -/

/-- A name can hold the code point. -/
def IsNameable (c : CodePoint) : Prop := c ≠ .char '\x00' ∧ (c.char?.isSome ∨ c.isByte)

theorem refusal?_eq_none_iff : refusal? path = none ↔ ∀ c ∈ path, IsNameable c := by
  unfold refusal?
  split_ifs with hcode hnull
  · obtain ⟨c, hc, hbad⟩ := List.any_eq_true.mp hcode
    refine iff_of_false (by simp) fun h => ?_
    obtain ⟨-, hchar | hbyte⟩ := h c hc
    · simp [Option.isNone_iff_eq_none.mp (Bool.and_eq_true_iff.mp hbad).1] at hchar
    · simp [hbyte] at hbad
  · exact iff_of_false (by simp) fun h => (h _ (by simpa using hnull)).1 rfl
  · refine iff_of_true rfl fun c hc => ⟨?_, ?_⟩
    · rintro rfl
      exact hnull (by simpa using hc)
    · by_contra hneither
      refine hcode (List.any_eq_true.mpr ⟨c, hc, ?_⟩)
      simpa [not_or] using hneither

/-- What is part of an accepted path is accepted. -/
theorem refusal?_eq_none_of_subset {part : Text} (h : refusal? path = none) (hs : part ⊆ path) :
    refusal? part = none :=
  refusal?_eq_none_iff.mpr fun c hc => refusal?_eq_none_iff.mp h c (hs hc)

theorem isRefusal_of_refusal? {kind : FileError.Kind} (h : refusal? path = some kind) :
    kind.isRefusal = true := by
  unfold refusal? at h
  split_ifs at h <;> exact Option.some.inj h ▸ rfl

theorem refusal?_of_objection? (h : objection? path = none) : refusal? path = none := by
  unfold objection? at h
  split at h
  · cases h
  · assumption

/-- A path that is not refused has another objection, if any. -/
theorem isRefusal_of_objection? {kind : FileError.Kind} (hr : refusal? path = none)
    (h : objection? path = some kind) : kind.isRefusal = false := by
  unfold objection? at h
  rw [hr] at h
  dsimp only at h
  split_ifs at h <;> exact Option.some.inj h ▸ rfl

theorem exists_of_openFile (h : t.openFile cwd path = .ok (l, content)) :
    objection? path = none ∧ t.walk (startOf cwd path) (Path.parts path) = .ok l ∧
      t.node? l = some (.file content) := by
  unfold openFile stat at h
  cases ho : objection? path with
  | some kind => simp [ho] at h
  | none =>
    rw [ho] at h
    cases hw : t.walk (startOf cwd path) (Path.parts path) with
    | error e => simp [hw] at h
    | ok m =>
      rw [hw] at h
      cases hn : t.node? m with
      | none => simp [hn] at h
      | some n =>
        cases n with
        | directory => simp [hn] at h
        | file bytes =>
          simp only [hn, Except.ok.injEq, Prod.mk.injEq] at h
          obtain ⟨rfl, rfl⟩ := h
          exact ⟨rfl, rfl, hn⟩

theorem openFile_eq (ho : objection? path = none)
    (hw : t.walk (startOf cwd path) (Path.parts path) = .ok l)
    (hn : t.node? l = some (.file content)) : t.openFile cwd path = .ok (l, content) := by
  unfold openFile stat
  simp only [ho, hw, hn]

theorem exists_of_contentAt (h : t.contentAt cwd path = .ok content) :
    t.openFile cwd path = .ok (Path.resolve cwd path, content) ∧
      t.node? (Path.resolve cwd path) = some (.file content) ∧ Path.resolve cwd path ≠ [] := by
  unfold contentAt at h
  cases hf : t.openFile cwd path with
  | error e => simp [hf, Except.map] at h
  | ok found =>
    obtain ⟨l, bytes⟩ := found
    simp only [hf, Except.map, Except.ok.injEq] at h
    obtain rfl := h
    obtain ⟨ho, hw, hn⟩ := exists_of_openFile hf
    obtain rfl : l = Path.resolve cwd path := eq_of_walk hw
    refine ⟨rfl, hn, ?_⟩
    intro he
    rw [he] at hn
    simp [node?] at hn

/-- A path leads to a file as long as there is a file. -/
theorem contentAt_put (h : t.contentAt cwd path = .ok content) (bytes : Bytes) :
    (t.put (Path.resolve cwd path) (.file bytes)).contentAt cwd path = .ok bytes := by
  obtain ⟨hf, hn, hl⟩ := exists_of_contentAt h
  obtain ⟨ho, hw, -⟩ := exists_of_openFile hf
  have hs : SameShape t (t.put (Path.resolve cwd path) (.file bytes)) := by
    intro m
    rw [node?_put hl]
    split
    · rename_i hm
      rw [hm, hn]
      rfl
    · rfl
  have hput : (t.put (Path.resolve cwd path) (.file bytes)).node? (Path.resolve cwd path) =
      some (.file bytes) := by rw [node?_put hl, if_pos rfl]
  rw [contentAt, openFile_eq ho ((walk_eq_of_sameShape hs _ _).trans hw) hput]
  rfl

end FileTree

end CSharpActions
