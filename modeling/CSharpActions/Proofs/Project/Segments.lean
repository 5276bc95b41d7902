import CSharpActions.Proofs.Project.Priority
import Mathlib

/-!
# Segments of namespaces

A namespace is made of segments with dots between them. An answer has no empty segment unless the
declared root namespace brings one in, or is itself empty: a project file with an empty root
namespace declares nothing, and the directories alone drop the dot in front, but an empty namespace
in a manifest counts and leaves that dot.
-/
namespace CSharpActions

namespace Text

/-- No dot stands at the beginning, at the end or beside another one. -/
def IsSegmented (n : Text) : Prop :=
  n.head? ≠ some (.char '.') ∧ n.getLast? ≠ some (.char '.') ∧ ¬ [.char '.', .char '.'] <:+: n

instance (n : Text) : Decidable (IsSegmented n) := inferInstanceAs (Decidable (_ ∧ _ ∧ _))

/-- Not both characters are dots. -/
def Apart (a b : CodePoint) : Prop := ¬ (a = .char '.' ∧ b = .char '.')

variable {n root s : Text} {segments : List Text}

theorem not_infix_iff_isChain : ¬ [.char '.', .char '.'] <:+: n ↔ n.IsChain Apart := by
  rw [List.isChain_iff_forall_rel_of_append_cons_cons]
  constructor
  · rintro h a b x y rfl ⟨rfl, rfl⟩
    exact h ⟨x, y, by simp⟩
  · rintro h ⟨x, y, rfl⟩
    exact @h (.char '.') (.char '.') x y (by simp) ⟨rfl, rfl⟩

theorem isChain_of_not_mem (h : CodePoint.char '.' ∉ n) : n.IsChain Apart := by
  rw [← not_infix_iff_isChain]
  exact fun hi => h (hi.subset List.mem_cons_self)

theorem isSegmented_of_not_mem (h : CodePoint.char '.' ∉ n) : IsSegmented n :=
  ⟨fun hh => h (List.mem_of_head? hh), fun hl => h (List.mem_of_getLast? hl),
    not_infix_iff_isChain.mpr (isChain_of_not_mem h)⟩

/-- One more segment needs something in front. -/
theorem isSegmented_append_iff (hs : s ≠ []) (hd : CodePoint.char '.' ∉ s) :
    IsSegmented (n ++ .char '.' :: s) ↔ IsSegmented n ∧ n ≠ [] := by
  obtain ⟨c, r, rfl⟩ := List.exists_cons_of_ne_nil hs
  have hc : c ≠ .char '.' := fun hc => hd (hc ▸ List.mem_cons_self)
  have hlast : (c :: r).getLast? ≠ some (.char '.') := fun hl => hd (List.mem_of_getLast? hl)
  have hchain : (CodePoint.char '.' :: c :: r).IsChain Apart :=
    List.isChain_cons_cons.mpr ⟨fun h => hc h.2, isChain_of_not_mem hd⟩
  by_cases hn : n = []
  · simp [hn, IsSegmented]
  · have hhead : (n ++ .char '.' :: c :: r).head? = n.head? := List.head?_append_of_ne_nil _ hn
    have hend : (n ++ .char '.' :: c :: r).getLast? = (c :: r).getLast? := by
      rw [List.getLast?_append_of_ne_nil _ (by simp), List.getLast?_cons_cons]
    unfold IsSegmented
    rw [hhead, hend, not_infix_iff_isChain, not_infix_iff_isChain, List.isChain_append]
    constructor
    · rintro ⟨hfirst, -, hfront, -, hborder⟩
      exact ⟨⟨hfirst, fun hl => hborder _ hl _ rfl ⟨rfl, rfl⟩, hfront⟩, hn⟩
    · rintro ⟨⟨hfirst, hdot, hfront⟩, -⟩
      exact ⟨hfirst, hlast, hfront, hchain, fun x hx y _ h => hdot (h.1 ▸ hx)⟩

theorem isSegmented_flatMap_iff (hs : ∀ s ∈ segments, s ≠ [] ∧ CodePoint.char '.' ∉ s) :
    IsSegmented (root ++ segments.flatMap (.char '.' :: ·)) ↔
      IsSegmented root ∧ (root = [] → segments = []) := by
  -- a segment at the end asks only whether something stands in front of it
  induction segments using List.reverseRecOn with
  | nil => simp
  | append_singleton segments s ih =>
    rw [List.forall_mem_append, List.forall_mem_singleton] at hs
    rw [List.flatMap_append, List.flatMap_singleton, ← List.append_assoc,
      isSegmented_append_iff hs.2.1 hs.2.2, ih hs.1]
    constructor
    · rintro ⟨⟨hroot, hnil⟩, hne⟩
      refine ⟨hroot, fun hempty => ?_⟩
      rw [hempty, hnil hempty] at hne
      exact absurd rfl hne
    · rintro ⟨hroot, hnil⟩
      have hne : root ≠ [] := fun hempty => by simpa using hnil hempty
      exact ⟨⟨hroot, fun hempty => absurd hempty hne⟩, by simp [hne]⟩

/-- Without a root namespace the first dot is left out. -/
theorem isSegmented_drop (hs : ∀ s ∈ segments, s ≠ [] ∧ CodePoint.char '.' ∉ s) :
    IsSegmented ((segments.flatMap (.char '.' :: ·)).drop 1) := by
  cases segments with
  | nil => decide
  | cons s r =>
    obtain ⟨⟨hne, hdot⟩, hr⟩ := List.forall_mem_cons.mp hs
    rw [List.flatMap_cons, List.cons_append, List.drop_one, List.tail_cons]
    exact (isSegmented_flatMap_iff hr).mpr ⟨isSegmented_of_not_mem hdot, fun h => absurd h hne⟩

end Text

namespace NamespaceQuery

variable {w : Workspace} {q : NamespaceQuery} {n : Text}

/-- The file that counts declares the root namespace of its directory. -/
def Declared (w : Workspace) (q : NamespaceQuery) (dir : Location) (root : Text) : Prop :=
  q.ProjectDeclares w dir root ∨
    (∀ dir root, ¬ q.ProjectDeclares w dir root) ∧ q.ManifestDeclares w dir root

theorem Declared.unique {dir dir' : Location} {root root' : Text} (h : q.Declared w dir root)
    (h' : q.Declared w dir' root') : dir = dir' ∧ root = root' := by
  rcases h with h | ⟨hnone, h⟩
  · rcases h' with h' | ⟨hnone', -⟩
    · exact h.unique h'
    · exact absurd h (hnone' _ _)
  · rcases h' with h' | ⟨-, h'⟩
    · exact absurd h' (hnone _ _)
    · exact h.unique h'

/-- A namespace follows a declared root namespace, or is made by the directories alone. -/
theorem Resolves.cases_declared (h : q.Resolves w n) :
    (∃ dir root segments, q.Declared w dir root ∧ dir ++ segments = q.directory.names ∧
        n = root ++ segments.flatMap (.char '.' :: ·)) ∨
      (∀ dir root, ¬ q.Declared w dir root) ∧ ∃ base segments,
        base ++ segments = q.directory.names ∧ n = (segments.flatMap (.char '.' :: ·)).drop 1 := by
  cases h with
  | project declares below => exact Or.inl ⟨_, _, _, Or.inl declares, below, rfl⟩
  | manifest noProject declares below =>
    exact Or.inl ⟨_, _, _, Or.inr ⟨noProject, declares⟩, below, rfl⟩
  | layout noProject noManifest _ below =>
    refine Or.inr ⟨?_, _, _, below, rfl⟩
    rintro dir root (h | ⟨-, h⟩)
    · exact noProject dir root h
    · exact noManifest dir root h

theorem Resolves.isSegmented_iff
    (hs : ∀ s ∈ q.directory.names, s ≠ [] ∧ CodePoint.char '.' ∉ s) (h : q.Resolves w n) :
    n.IsSegmented ↔ ∀ dir root, q.Declared w dir root →
      root.IsSegmented ∧ (root = [] → dir = q.directory.names) := by
  rcases h.cases_declared with ⟨dir, root, segments, hdeclared, hbelow, rfl⟩ |
    ⟨hnone, base, segments, hbelow, rfl⟩
  · have hsegments : ∀ s ∈ segments, s ≠ [] ∧ CodePoint.char '.' ∉ s := fun s hmem =>
      hs s (by rw [← hbelow]; exact List.mem_append_right dir hmem)
    have hend : segments = [] ↔ dir = q.directory.names := by
      rw [← hbelow, List.self_eq_append_right]
    rw [Text.isSegmented_flatMap_iff hsegments, hend]
    constructor
    · intro hroot dir' root' hdeclared'
      obtain ⟨rfl, rfl⟩ := hdeclared.unique hdeclared'
      exact hroot
    · exact fun hall => hall dir root hdeclared
  · have hsegments : ∀ s ∈ segments, s ≠ [] ∧ CodePoint.char '.' ∉ s := fun s hmem =>
      hs s (by rw [← hbelow]; exact List.mem_append_right base hmem)
    exact iff_of_true (Text.isSegmented_drop hsegments)
      fun dir root hdeclared => absurd hdeclared (hnone dir root)

theorem ne_nil_of_isName {name : Text} (h : Path.IsName name) : name ≠ [] := by
  rintro rfl
  exact Bool.noConfusion h.notHere

/-- For every file tree, path and root, if no directory has a dot in its name: the answer has no
empty segment exactly if the root namespace that is declared for it has none, and is not empty
unless it is declared in the directory of the file itself. -/
theorem answer_isSegmented_iff (w : Workspace) (path : Text) (root : Option Text) (n : Text)
    (ht : w.tree.WellFormed) (hc : ∀ name ∈ w.cwd, Path.IsName name)
    (hd : ∀ name ∈ (ofPaths w path root).directory.names, CodePoint.char '.' ∉ name)
    (h : (ofPaths w path root).answer w = .ok n) :
    n.IsSegmented ↔ ∀ dir declared, (ofPaths w path root).Declared w dir declared →
      declared.IsSegmented ∧ (declared = [] → dir = (ofPaths w path root).directory.names) := by
  have hn := isName_of_mem_ofPaths hc path root
  rcases answer_cases ht (directory_ofPaths_root w path root) hn with
    ⟨m, ha, hresolves, -⟩ | ⟨l, ha, -⟩ | ⟨ha, -⟩ | ⟨e, ha, -⟩
  · obtain rfl := Except.ok.inj (ha.symm.trans h)
    exact hresolves.isSegmented_iff fun s hs => ⟨ne_nil_of_isName (hn s hs), hd s hs⟩
  · rw [ha] at h
    cases h
  · rw [ha] at h
    cases h
  · rw [ha] at h
    cases h

/-- A manifest that declares a root namespace of two segments. -/
theorem answer_isSegmented_iff_below_manifest :
    ∃ w : Workspace,
      w = { tree := ⟨[(["p"], .directory), (["p", "project.json"], .file ((Text.Utf8.encode?
        "\x7b\"tooling\": \x7b\"defaultNamespace\": \"Foo.Bar\"\x7d\x7d").getD []))]⟩ } ∧
      w.tree.WellFormed ∧ (∀ name ∈ w.cwd, Path.IsName name) ∧
      (∀ name ∈ (ofPaths w "/p/Sub/Thing.cs" none).directory.names, CodePoint.char '.' ∉ name) ∧
      (ofPaths w "/p/Sub/Thing.cs" none).answer w = .ok "Foo.Bar.Sub" ∧
      ("Foo.Bar.Sub".text.IsSegmented ↔ ∀ dir declared,
        (ofPaths w "/p/Sub/Thing.cs" none).Declared w dir declared →
          declared.IsSegmented ∧
            (declared = [] → dir = (ofPaths w "/p/Sub/Thing.cs" none).directory.names)) := by
  refine ⟨_, rfl, ?_⟩
  generalize hw : Workspace.mk _ _ _ _ _ = w
  have ht : w.tree.WellFormed := by
    rw [← hw]
    decide +kernel
  have hc : ∀ name ∈ w.cwd, Path.IsName name := by
    rw [← hw]
    decide
  have hd : ∀ name ∈ (ofPaths w "/p/Sub/Thing.cs" none).directory.names,
      CodePoint.char '.' ∉ name := by
    rw [← hw]
    decide
  have ha : (ofPaths w "/p/Sub/Thing.cs" none).answer w = .ok "Foo.Bar.Sub" := by
    rw [← hw]
    cbv
  exact ⟨ht, hc, hd, ha, answer_isSegmented_iff w _ none _ ht hc hd ha⟩

/-- An empty root namespace in a manifest leaves the dot in front of the first directory. -/
theorem answer_begins_with_dot :
    ∃ w : Workspace,
      w = { tree := ⟨[(["p"], .directory), (["p", "project.json"], .file ((Text.Utf8.encode?
        "\x7b\"tooling\": \x7b\"defaultNamespace\": \"\"\x7d\x7d").getD []))]⟩ } ∧
      w.tree.WellFormed ∧ (∀ name ∈ w.cwd, Path.IsName name) ∧
      (∀ name ∈ (ofPaths w "/p/Sub/Thing.cs" none).directory.names, CodePoint.char '.' ∉ name) ∧
      (∀ dir declared, (ofPaths w "/p/Sub/Thing.cs" none).Declared w dir declared →
        declared.IsSegmented) ∧
      (ofPaths w "/p/Sub/Thing.cs" none).answer w = .ok ".Sub" ∧ ¬ ".Sub".text.IsSegmented := by
  refine ⟨_, rfl, ?_⟩
  generalize hw : Workspace.mk _ _ _ _ _ = w
  have ht : w.tree.WellFormed := by
    rw [← hw]
    decide +kernel
  have honly : ∀ l, w.tree.isFileAt l = true → l = ["p".text] ++ ["project.json".text] := by
    intro l hl
    rw [← hw] at hl
    exact FileTree.eq_of_isFileAt hl
  have hfile : w.tree.isFileAt (["p".text] ++ ["project.json".text]) = true := by
    rw [← hw]
    decide
  have hplace : (ofPaths w "/p/Sub/Thing.cs" none).directory.names = ["p", "Sub"] := by
    rw [← hw]
    decide
  have hreads : w.Reads ⟨.slash, ["p".text] ++ ["project.json".text]⟩
      "\x7b\"tooling\": \x7b\"defaultNamespace\": \"\"\x7d\x7d" := by
    rw [← hw]
    exact ⟨rfl, by decide, _, rfl, by decide +kernel⟩
  have hnear : w.tree.IsNearest IsManifestName (ofPaths w "/p/Sub/Thing.cs" none).directory.names
      ["p"] "project.json" :=
    FileTree.isNearest_of_only honly hfile rfl (by rw [hplace]; decide)
  have hnoProject : w.tree.LacksAbove IsProjectName
      (ofPaths w "/p/Sub/Thing.cs" none).directory.names :=
    FileTree.lacksAbove_of_only honly (by decide)
  have hdeclared : (ofPaths w "/p/Sub/Thing.cs" none).Declared w ["p"] [] := by
    refine Or.inr ⟨?_, _, ⟨_, hnear, hreads⟩, ?_⟩
    swap
    · rw [← hw]
      exact Manifest.rootNamespace_eq_ok.mp (by decide +kernel)
    rintro dir root ⟨text, ⟨name, hnear', -⟩, -⟩
    exact hnoProject.not_isNearest hnear'
  refine ⟨ht, by rw [← hw]; decide, by rw [hplace]; decide, fun dir declared h => ?_, ?_, by decide⟩
  · obtain ⟨-, rfl⟩ := hdeclared.unique h
    decide
  · rw [← hw]
    cbv

end NamespaceQuery

end CSharpActions
