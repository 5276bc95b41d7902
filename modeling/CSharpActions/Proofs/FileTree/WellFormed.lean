import CSharpActions.Proofs.FileTree.Entry
import CSharpActions.Proofs.Text.Fragment
import CSharpActions.Proofs.Text.Splitting
import Mathlib.Data.List.Induction

/-!
# Well-formed file trees

In a file tree that can exist, the directory above every entry is there. A path of names then leads
to the location with these names, if anything is there at all.
-/
namespace CSharpActions

open Text (Utf8.size Utf8.size_append Utf8.size_eq_sum Utf8.size_intercalate_le)

namespace Path

/-- A part that leads downwards. -/
structure IsName (part : Text) : Prop where
  noSlash : CodePoint.char '/' ∉ part
  notHere : isHere part = false
  notAbove : isAbove part = false

instance (part : Text) : Decidable (IsName part) :=
  decidable_of_iff (CodePoint.char '/' ∉ part ∧ isHere part = false ∧ isAbove part = false)
    ⟨fun h => ⟨h.1, h.2.1, h.2.2⟩, fun h => ⟨h.noSlash, h.notHere, h.notAbove⟩⟩

theorem step_of_isName {part : Text} (h : IsName part) (l : Location) :
    step l part = l ++ [part] := by
  rw [step, if_neg (by simp [h.notHere]), if_neg (by simp [h.notAbove])]

theorem foldl_step_of_isName {names : List Text} (h : ∀ name ∈ names, IsName name) (l : Location) :
    names.foldl step l = l ++ names := by
  induction names generalizing l with
  | nil => simp
  | cons name names ih =>
    have hname := h name (by simp)
    rw [List.foldl_cons, step_of_isName hname, ih fun n hn => h n (List.mem_cons_of_mem name hn)]
    simp

theorem isName_of_mem_step {l : Location} {part : Text} (hl : ∀ name ∈ l, IsName name)
    (hp : CodePoint.char '/' ∉ part) : ∀ name ∈ step l part, IsName name := by
  intro name hname
  rw [step] at hname
  split_ifs at hname with hhere habove
  · exact hl name hname
  · exact hl name (List.dropLast_subset l hname)
  · rcases List.mem_append.mp hname with h | h
    · exact hl name h
    · rw [List.mem_singleton.mp h]
      exact ⟨hp, by simpa using hhere, by simpa using habove⟩

/-- The location of a written path consists of names. -/
theorem isName_of_mem_resolve {cwd : Location} (hc : ∀ name ∈ cwd, IsName name) (written : Text) :
    ∀ name ∈ resolve cwd written, IsName name := by
  have hsteps : ∀ (ps : List Text) (l : Location), (∀ p ∈ ps, CodePoint.char '/' ∉ p) →
      (∀ name ∈ l, IsName name) → ∀ name ∈ ps.foldl step l, IsName name := by
    intro ps
    induction ps with
    | nil => exact fun l _ hl => hl
    | cons p ps ih =>
      intro l hps hl
      exact ih (step l p) (fun q hq => hps q (List.mem_cons_of_mem p hq))
        (isName_of_mem_step hl (hps p (by simp)))
  refine hsteps (parts written) _ (fun p hp => Text.not_mem_of_mem_splitOn hp) ?_
  split_ifs
  · simp
  · exact hc

theorem parts_slash (t : Text) : parts (.char '/' :: t) = [] :: parts t := by
  rw [parts, Text.splitOn, if_pos rfl]
  rfl

theorem parts_intercalate {names : List Text} (hne : names ≠ []) (h : ∀ name ∈ names, IsName name) :
    parts (List.intercalate "/" names) = names :=
  Text.splitOn_intercalate hne fun name hname => (h name hname).noSlash

/-- The written form of a path begins with slashes, and its parts are then its names. -/
theorem exists_parts_render {p : Path} (hr : p.root ≠ .relative)
    (h : ∀ name ∈ p.names, IsName name) :
    ∃ blank, (∀ part ∈ blank, part = []) ∧ parts p.render = blank ++ p.names := by
  have hwords : ∃ blank, (∀ part ∈ blank, part = []) ∧
      parts (List.intercalate "/" p.names) = blank ++ p.names := by
    by_cases hne : p.names = []
    · exact ⟨[[]], by simp, by rw [hne]; rfl⟩
    · exact ⟨[], by simp, parts_intercalate hne h⟩
  obtain ⟨blank, hblank, hparts⟩ := hwords
  unfold render
  cases hroot : p.root with
  | relative => exact absurd hroot hr
  | slash =>
    refine ⟨[] :: blank, by simpa using hblank, ?_⟩
    rw [List.cons_append, ← hparts]
    exact parts_slash _
  | doubleSlash =>
    refine ⟨[] :: [] :: blank, by simpa using hblank, ?_⟩
    rw [List.cons_append, List.cons_append, ← hparts]
    exact (parts_slash _).trans (congrArg _ (parts_slash _))

theorem exists_render_eq_cons {p : Path} (hr : p.root ≠ .relative) :
    ∃ t, p.render = .char '/' :: t := by
  unfold render
  cases hroot : p.root with
  | relative => exact absurd hroot hr
  | slash => exact ⟨_, rfl⟩
  | doubleSlash => exact ⟨_, rfl⟩

theorem not_mem_render {p : Path} (hr : p.root ≠ .relative) {c : CodePoint} (hc : c ∉ "/".text)
    (h : ∀ name ∈ p.names, c ∉ name) : c ∉ p.render := by
  have hwords : c ∉ List.intercalate "/".text p.names := Text.not_mem_intercalate hc h
  have hne : c ≠ .char '/' := fun he => hc (by rw [he]; decide)
  unfold render
  cases hroot : p.root with
  | relative => exact absurd hroot hr
  | slash => exact List.not_mem_cons_of_ne_of_not_mem hne hwords
  | doubleSlash =>
    exact List.not_mem_cons_of_ne_of_not_mem hne (List.not_mem_cons_of_ne_of_not_mem hne hwords)

theorem isAbsolute_slash (t : Text) : isAbsolute (.char '/' :: t) = true := by
  rw [isAbsolute, decide_eq_true_iff]
  unfold rootOf
  split <;> simp_all

/-- A path that the operating system refuses for its length. -/
def TooLong (p : Path) : Prop :=
  FileTree.maxPathSize < Utf8.size p.render ∨
    ∃ name ∈ p.names, FileTree.maxNameSize < Utf8.size name

instance (p : Path) : Decidable p.TooLong := inferInstanceAs (Decidable (_ ∨ _))

/-- With fewer names a path is no longer. -/
theorem TooLong.of_sublist {p q : Path} (h : p.TooLong) (hr : p.root = q.root)
    (ha : q.root ≠ .relative) (hn : p.names.Sublist q.names) : q.TooLong := by
  rcases h with hsize | ⟨name, hname, hsize⟩
  · refine Or.inl (Nat.lt_of_lt_of_le hsize ?_)
    have hwords : Utf8.size (List.intercalate "/".text p.names) ≤
        Utf8.size (List.intercalate "/".text q.names) := Utf8.size_intercalate_le rfl hn
    unfold render
    rw [hr]
    cases hroot : q.root with
    | relative => exact absurd hroot ha
    | slash => simpa [Utf8.size_append] using hwords
    | doubleSlash => simpa [Utf8.size_append] using hwords
  · exact Or.inr ⟨name, hn.subset hname, hsize⟩

theorem TooLong.join {p : Path} (h : p.TooLong) (hr : p.root ≠ .relative) (names : List Text) :
    (p.join names).TooLong :=
  h.of_sublist rfl hr (List.sublist_append_left _ _)

theorem TooLong.of_parent {p : Path} {names : List Text} (h : (p.parent.join names).TooLong)
    (hr : p.root ≠ .relative) : (p.join names).TooLong :=
  h.of_sublist rfl hr ((List.dropLast_sublist _).append (List.Sublist.refl _))

end Path

namespace FileTree

/-- A name that an entry can have. -/
structure IsEntryName (name : Text) : Prop extends Path.IsName name where
  nameable : refusal? name = none
  size : Utf8.size name ≤ maxNameSize

instance (name : Text) : Decidable (IsEntryName name) :=
  decidable_of_iff (Path.IsName name ∧ refusal? name = none ∧ Utf8.size name ≤ maxNameSize)
    ⟨fun h => ⟨h.1, h.2.1, h.2.2⟩, fun h => ⟨h.toIsName, h.nameable, h.size⟩⟩

structure WellFormed (t : FileTree) : Prop where
  named : ∀ e ∈ t.nodes, ∀ name ∈ e.1, IsEntryName name
  above : ∀ e ∈ t.nodes, t.node? e.1.dropLast = some .directory

instance (t : FileTree) : Decidable t.WellFormed :=
  decidable_of_iff ((∀ e ∈ t.nodes, ∀ name ∈ e.1, IsEntryName name) ∧
      ∀ e ∈ t.nodes, t.node? e.1.dropLast = some .directory)
    ⟨fun h => ⟨h.1, h.2⟩, fun h => ⟨h.named, h.above⟩⟩

variable {t : FileTree} {l m : Location} {names : List Text}

namespace WellFormed

theorem isEntryName (ht : t.WellFormed) (h : t.node? l ≠ none) : ∀ name ∈ l, IsEntryName name := by
  intro name hname
  obtain ⟨e, he, rfl⟩ := List.mem_map.mp (mem_of_node? h (List.ne_nil_of_mem hname))
  exact ht.named e he name hname

/-- Above everything that is there are directories. -/
theorem directory_above (ht : t.WellFormed) (hne : names ≠ []) (h : t.node? (l ++ names) ≠ none) :
    t.node? l = some .directory := by
  -- from the lower end, since each entry knows the directory right above it
  induction names using List.reverseRecOn with
  | nil => exact absurd rfl hne
  | append_singleton names name ih =>
    obtain ⟨e, he, hl⟩ := List.mem_map.mp (mem_of_node? h (by simp))
    have habove : t.node? (l ++ names) = some .directory := by
      have hdir := ht.above e he
      rwa [hl, ← List.append_assoc, List.dropLast_concat] at hdir
    by_cases hnames : names = []
    · simpa [hnames] using habove
    · exact ih hnames (by simp [habove])

theorem directory_parent (ht : t.WellFormed) (h : t.node? l = some .directory) :
    t.node? l.dropLast = some .directory := by
  by_cases hl : l = []
  · rw [hl]
    rfl
  · have hsome : t.node? l ≠ none := by simp [h]
    obtain ⟨e, he, rfl⟩ := List.mem_map.mp (mem_of_node? hsome hl)
    exact ht.above e he

/-! ## Walks -/

theorem walk_eq (ht : t.WellFormed) (h : t.node? (l ++ names) ≠ none) :
    t.walk l names = .ok (l ++ names) := by
  induction names generalizing l with
  | nil =>
    rw [List.append_nil] at h ⊢
    rw [walk, if_pos (Option.isSome_iff_ne_none.mpr h)]
  | cons name names ih =>
    have hdir : t.node? l = some .directory := ht.directory_above (by simp) h
    have hname : IsEntryName name := ht.isEntryName h name (by simp)
    rw [List.append_cons] at h
    rw [walk, hdir]
    simp only
    rw [if_neg (Nat.not_lt.mpr hname.size), Path.step_of_isName hname.toIsName, ih h]
    simp

end WellFormed

theorem node?_ne_none_of_walk (h : t.walk l names = .ok m) : t.node? m ≠ none := by
  induction names generalizing l with
  | nil =>
    rw [walk] at h
    split_ifs at h with hsome
    cases h
    exact Option.isSome_iff_ne_none.mp hsome
  | cons part rest ih =>
    rw [walk] at h
    split at h
    · cases h
    · cases h
    · split_ifs at h
      exact ih h

theorem exists_tooLong_of_walk (h : t.walk l names = .error .nameTooLong) :
    ∃ name ∈ names, maxNameSize < Utf8.size name := by
  induction names generalizing l with
  | nil =>
    rw [walk] at h
    split_ifs at h
    cases h
  | cons part rest ih =>
    rw [walk] at h
    split at h
    · cases h
    · cases h
    · split_ifs at h with hsize
      · exact ⟨part, by simp, hsize⟩
      · obtain ⟨name, hname, hlong⟩ := ih h
        exact ⟨name, List.mem_cons_of_mem part hname, hlong⟩

theorem walk_blank_append {blank : List Text} (h : ∀ part ∈ blank, part = []) (names : List Text) :
    t.walk [] (blank ++ names) = t.walk [] names := by
  induction blank with
  | nil => rfl
  | cons part blank ih =>
    obtain rfl := h part (by simp)
    rw [List.cons_append, walk]
    exact ih fun p hp => h p (List.mem_cons_of_mem [] hp)

variable {p : Path}

/-- A path of accepted names is accepted. -/
theorem refusal?_render_eq_none (hr : p.root ≠ .relative)
    (hn : ∀ name ∈ p.names, refusal? name = none) : refusal? p.render = none := by
  refine refusal?_eq_none_iff.mpr fun c hc => ?_
  by_contra hbad
  have hslash : c ∉ "/".text := by
    intro hc
    rw [List.mem_singleton.mp hc] at hbad
    exact hbad ⟨by decide, Or.inl rfl⟩
  exact Path.not_mem_render hr hslash
    (fun name hname hmem => hbad (refusal?_eq_none_iff.mp (hn name hname) c hmem)) hc

/-- The written form of a path leads to the location with the names of the path, unless it is too
long. -/
theorem stat_render (ht : t.WellFormed) (hr : p.root ≠ .relative)
    (hn : ∀ name ∈ p.names, Path.IsName name) (cwd : Location) :
    (∃ n, t.stat cwd p.render = .ok (p.names, n) ∧ t.node? p.names = some n ∧ ¬ p.TooLong) ∨
      ∃ kind, t.stat cwd p.render = .error kind ∧
        (kind = .nameTooLong ∧ p.TooLong ∨ kind ≠ .nameTooLong ∧ t.node? p.names = none) := by
  obtain ⟨blank, hblank, hparts⟩ := Path.exists_parts_render hr hn
  obtain ⟨rest, hrest⟩ := Path.exists_render_eq_cons hr
  have hstart : startOf cwd p.render = [] := by
    rw [startOf, hrest, if_pos (Path.isAbsolute_slash rest)]
  have hwalk : t.walk (startOf cwd p.render) (Path.parts p.render) = t.walk [] p.names := by
    rw [hstart, hparts, walk_blank_append hblank]
  unfold stat
  rw [hwalk]
  cases hrefusal : refusal? p.render with
  | some kind =>
    have hkind := isRefusal_of_refusal? hrefusal
    rw [objection?, hrefusal]
    refine Or.inr ⟨kind, rfl, Or.inr ⟨?_, ?_⟩⟩
    · rintro rfl
      cases hkind
    · by_contra hnode
      have hnone := refusal?_render_eq_none hr fun name hname =>
        (ht.isEntryName hnode name hname).nameable
      rw [hnone] at hrefusal
      cases hrefusal
  | none =>
    unfold objection?
    rw [hrefusal]
    dsimp only
    split_ifs with hempty hsize
    · simp [hrest] at hempty
    · exact Or.inr ⟨.nameTooLong, rfl, Or.inl ⟨rfl, Or.inl hsize⟩⟩
    · cases hw : t.walk [] p.names with
      | ok l =>
        have hl : l = p.names := by
          rw [eq_of_walk hw, Path.foldl_step_of_isName hn, List.nil_append]
        obtain ⟨n, hnode⟩ := Option.ne_none_iff_exists'.mp (node?_ne_none_of_walk hw)
        rw [hl] at hnode
        refine Or.inl ⟨n, by simp [hl, hnode], hnode, ?_⟩
        rintro (hlong | ⟨name, hname, hlong⟩)
        · exact hsize hlong
        · exact Nat.not_lt.mpr (ht.isEntryName (by simp [hnode]) name hname).size hlong
      | error kind =>
        refine Or.inr ⟨kind, rfl, ?_⟩
        by_cases hkind : kind = .nameTooLong
        · exact Or.inl ⟨hkind, Or.inr (exists_tooLong_of_walk (hkind ▸ hw))⟩
        · refine Or.inr ⟨hkind, ?_⟩
          by_contra hnode
          have hok : t.walk [] p.names = .ok p.names := ht.walk_eq (l := []) hnode
          simp [hok] at hw

theorem find?_render (ht : t.WellFormed) (hr : p.root ≠ .relative)
    (hn : ∀ name ∈ p.names, Path.IsName name) :
    t.find? [] p.render = .ok ((t.node? p.names).map (p.names, ·)) ∨
      t.find? [] p.render = .error ⟨.nameTooLong, some p.render⟩ ∧ p.TooLong := by
  unfold find?
  rcases stat_render ht hr hn [] with ⟨n, hstat, hnode, -⟩ | ⟨kind, hstat, hkind⟩
  · simp [hstat, hnode]
  · rcases hkind with ⟨rfl, hlong⟩ | ⟨hne, hnone⟩
    · exact Or.inr ⟨by rw [hstat], hlong⟩
    · rw [hstat, hnone]
      cases kind <;> simp_all

theorem contentAt_render (ht : t.WellFormed) (hr : p.root ≠ .relative)
    (hn : ∀ name ∈ p.names, Path.IsName name) (cwd : Location) (content : Text.Utf8.Bytes) :
    t.contentAt cwd p.render = .ok content ↔
      t.node? p.names = some (.file content) ∧ ¬ p.TooLong := by
  unfold contentAt openFile
  rcases stat_render ht hr hn cwd with ⟨n, hstat, hnode, hshort⟩ | ⟨kind, hstat, hkind⟩
  · rw [hstat, hnode]
    cases n <;> simp [Except.map, hshort]
  · rw [hstat]
    rcases hkind with ⟨-, hlong⟩ | ⟨-, hnone⟩
    · simp [Except.map, hlong]
    · simp [Except.map, hnone]

/-! ## Operations -/

namespace WellFormed

theorem empty : WellFormed {} := ⟨by simp, by simp⟩

/-- A new entry in a directory. -/
theorem put (ht : t.WellFormed) (hl : l ≠ []) (hn : ∀ name ∈ l, IsEntryName name)
    (ha : t.node? l.dropLast = some .directory) {n : Node}
    (hk : t.node? l = some .directory → n = .directory) : (t.put l n).WellFormed := by
  have hkeep : ∀ m, t.node? m = some .directory → (t.put l n).node? m = some .directory := by
    intro m hm
    rw [node?_put hl]
    split_ifs with h
    · rw [hk (h ▸ hm)]
    · exact hm
  constructor
  · intro e he name hname
    rcases List.mem_cons.mp he with rfl | he
    · exact hn name hname
    · exact ht.named e (List.mem_of_mem_filter he) name hname
  · intro e he
    rcases List.mem_cons.mp he with rfl | he
    · exact hkeep _ ha
    · exact hkeep _ (ht.above e (List.mem_of_mem_filter he))

/-- Only a directory can be above something. -/
theorem remove (ht : t.WellFormed) (hl : l ≠ []) (hf : t.node? l ≠ some .directory) :
    (t.remove l).WellFormed := by
  constructor
  · exact fun e he => ht.named e (List.mem_of_mem_filter he)
  · intro e he
    have habove := ht.above e (List.mem_of_mem_filter he)
    have hne : e.1.dropLast ≠ l := fun h => hf (by rw [← h, habove])
    rw [node?_remove hl, if_neg hne, habove]

/-- A place for an entry is a directory that is there or a new name in one. -/
theorem placeFor (ht : t.WellFormed) {cwd : Location} {path : Text}
    (h : t.placeFor cwd path = .ok l) :
    t.node? l = some .directory ∨
      l ≠ [] ∧ (∀ name ∈ l, IsEntryName name) ∧ t.node? l.dropLast = some .directory := by
  unfold FileTree.placeFor at h
  cases ho : objection? path with
  | some kind => simp [ho] at h
  | none =>
    rw [ho] at h
    cases hp : (Path.parts path).reverse with
    | nil => simp [hp] at h
    | cons last above =>
      rw [hp] at h
      cases hw : t.walk (startOf cwd path) above.reverse with
      | error e => simp [hw] at h
      | ok dir =>
        cases hd : t.node? dir with
        | none => simp [hw, hd] at h
        | some n =>
          cases n with
          | file content => simp [hw, hd] at h
          | directory =>
            simp only [hw, hd] at h
            split_ifs at h with hsize
            cases h
            have hlast : last ∈ Path.parts path := by
              rw [← List.mem_reverse, hp]
              simp
            rw [Path.step]
            split_ifs with hhere habove
            · exact Or.inl hd
            · exact Or.inl (ht.directory_parent hd)
            · refine Or.inr ⟨by simp, ?_, by simpa using hd⟩
              intro name hname
              rcases List.mem_append.mp hname with hname | hname
              · exact ht.isEntryName (by simp [hd]) name hname
              · rw [List.mem_singleton.mp hname]
                refine ⟨⟨Text.not_mem_of_mem_splitOn hlast, by simpa using hhere,
                  by simpa using habove⟩, ?_, Nat.not_lt.mp hsize⟩
                exact refusal?_eq_none_of_subset (refusal?_of_objection? ho)
                  (Text.subset_of_mem_splitOn hlast)

theorem store (ht : t.WellFormed) {cwd : Location} {path : Text} {content : Text.Utf8.Bytes}
    {t' : FileTree} (h : t.store cwd path content = .ok t') : t'.WellFormed := by
  unfold FileTree.store at h
  cases hp : t.placeFor cwd path with
  | error kind => simp [hp] at h
  | ok l =>
    simp only [hp] at h
    split at h
    · cases h
    · rename_i hnode
      cases h
      rcases ht.placeFor hp with hdir | ⟨hl, hn, ha⟩
      · exact absurd hdir hnode
      · exact ht.put hl hn ha fun hdir => absurd hdir hnode

theorem makeDirectory (ht : t.WellFormed) {cwd : Location} {path : Text} {t' : FileTree}
    (h : t.makeDirectory cwd path = .ok t') : t'.WellFormed := by
  unfold FileTree.makeDirectory at h
  cases hp : t.placeFor cwd path with
  | error kind => simp [hp] at h
  | ok l =>
    simp only [hp] at h
    split at h
    · cases h
      exact ht
    · cases h
    · rename_i hnode
      cases h
      rcases ht.placeFor hp with hdir | ⟨hl, hn, ha⟩
      · simp [hdir] at hnode
      · exact ht.put hl hn ha fun _ => rfl

end WellFormed

end FileTree

end CSharpActions
