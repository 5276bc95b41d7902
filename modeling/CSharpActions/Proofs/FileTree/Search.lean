import CSharpActions.FileTree.Find
import CSharpActions.Proofs.FileTree.WellFormed
import Mathlib.Data.List.Lex

/-!
# Searches upwards

The search for a file ends at the nearest directory that holds a file with a fitting name, and there
at the first of these files.
-/
namespace CSharpActions

/-! ## Order -/

theorem CodePoint.toNat_inj {a b : CodePoint} : a.toNat = b.toNat ↔ a = b :=
  ⟨fun h => by rw [← ofNat_toNat a, h, ofNat_toNat], congrArg _⟩

namespace Text

/-- The order of texts is the lexicographic one. -/
theorem le_iff {s t : Text} : le s t = true ↔ ¬ t.map CodePoint.toNat < s.map CodePoint.toNat := by
  induction s generalizing t with
  | nil => simp [le]
  | cons a s ih =>
    cases t with
    | nil => simp [le]
    | cons b t =>
      rw [le, List.map_cons, List.map_cons, List.cons_lt_cons_iff]
      split
      · rename_i h
        simp [h, ih]
      · rename_i h
        have hne : b.toNat ≠ a.toNat := fun he => h (CodePoint.toNat_inj.mp he.symm)
        simp only [decide_eq_true_eq, hne, false_and, or_false, not_lt]

theorem le_refl (t : Text) : le t t = true := le_iff.mpr (lt_irrefl _)

theorem le_antisymm {s t : Text} (hst : le s t = true) (hts : le t s = true) : s = t := by
  rw [le_iff, not_lt] at hst hts
  exact List.map_injective_iff.mpr (fun _ _ => CodePoint.toNat_inj.mp) (hst.antisymm hts)

end Text

namespace FileTree

theorem namesLe_iff {s t : List Text} :
    namesLe s t = true ↔
      ¬ t.map (List.map CodePoint.toNat) < s.map (List.map CodePoint.toNat) := by
  induction s generalizing t with
  | nil => simp [namesLe]
  | cons a s ih =>
    cases t with
    | nil => simp [namesLe]
    | cons b t =>
      rw [namesLe, List.map_cons, List.map_cons, List.cons_lt_cons_iff]
      split
      · rename_i h
        simp [h, ih]
      · rename_i h
        have hinj : Function.Injective (List.map CodePoint.toNat) :=
          List.map_injective_iff.mpr fun _ _ => CodePoint.toNat_inj.mp
        have hne : b.map CodePoint.toNat ≠ a.map CodePoint.toNat := fun he => h (hinj he.symm)
        rw [Text.le_iff]
        simp only [hne, false_and, or_false]

theorem namesLe_trans {a b c : List Text} (hab : namesLe a b = true) (hbc : namesLe b c = true) :
    namesLe a c = true := by
  rw [namesLe_iff, not_lt] at *
  exact le_trans hab hbc

theorem namesLe_total (a b : List Text) : (namesLe a b || namesLe b a) = true := by
  rw [Bool.or_eq_true, namesLe_iff, namesLe_iff, not_lt, not_lt]
  exact le_total _ _

theorem namesLe_append_singleton (l : Location) (a b : Text) :
    namesLe (l ++ [a]) (l ++ [b]) = Text.le a b := by
  induction l with
  | nil =>
    simp only [List.nil_append, namesLe]
    split
    · rename_i h
      rw [h, Text.le_refl]
    · rfl
  | cons c l ih => simp [namesLe, ih]

section

variable {α : Type} [DecidableEq α]

theorem dropRepeats_sublist (l : List α) : (dropRepeats l).Sublist l := by
  fun_induction dropRepeats l with
  | case1 b r ih => exact ih.cons b
  | case2 a b r h ih => exact ih.cons_cons a
  | case3 r => exact List.Sublist.refl r

theorem mem_dropRepeats {a : α} {l : List α} : a ∈ dropRepeats l ↔ a ∈ l := by
  fun_induction dropRepeats l with
  | case1 b r ih => simp [ih]
  | case2 b c r h ih => simp [ih]
  | case3 r => rfl

end

variable {t : FileTree} {P : Text → Prop} {p : Path} {found : List Reached} {r : Reached}

theorem mem_inOrder : r ∈ inOrder found ↔ r ∈ found := by
  rw [inOrder, mem_dropRepeats, List.mem_mergeSort]

theorem pairwise_inOrder (found : List Reached) :
    (inOrder found).Pairwise fun a b => namesLe a.path.names b.path.names = true := by
  refine List.Pairwise.sublist (dropRepeats_sublist _) (List.pairwise_mergeSort ?_ ?_ found)
  · exact fun _ _ _ => namesLe_trans
  · exact fun a b => namesLe_total a.path.names b.path.names

/-- What is found first comes before everything else that could be found. -/
theorem namesLe_of_find? {f : Reached → Bool} {s : Reached} (h : (inOrder found).find? f = some r)
    (hs : s ∈ found) (hf : f s = true) : namesLe r.path.names s.path.names = true := by
  obtain ⟨-, before, after, heq, hbefore⟩ := List.find?_eq_some_iff_append.mp h
  have hmem : s ∈ before ++ r :: after := by rw [← heq, mem_inOrder]; exact hs
  have hsorted := pairwise_inOrder found
  rw [heq, List.pairwise_append, List.pairwise_cons] at hsorted
  rcases List.mem_append.mp hmem with hmem | hmem
  · exact absurd hf (by simpa using hbefore s hmem)
  · rcases List.mem_cons.mp hmem with rfl | hmem
    · rw [namesLe_iff]
      exact lt_irrefl _
    · exact hsorted.2.1.1 s hmem

/-! ## Below one directory -/

/-- The first file of a directory among those with names that satisfy a condition. -/
structure IsFirst (t : FileTree) (P : Text → Prop) (dir : Location) (name : Text) : Prop where
  named : P name
  isFile : t.isFileAt (dir ++ [name]) = true
  first : ∀ other, P other → t.isFileAt (dir ++ [other]) = true → Text.le name other = true

/-- No file of the directory has a name that satisfies the condition. -/
def Lacks (t : FileTree) (P : Text → Prop) (dir : Location) : Prop :=
  ∀ name, P name → t.isFileAt (dir ++ [name]) = false

/-- What a pattern leads to has fitting names, and no file with a fitting name is left out. -/
structure Leads (t : FileTree) (P : Text → Prop) (p : Path) (found : List Reached) : Prop where
  fits : ∀ r ∈ found, ∃ name, P name ∧ r = ⟨p.join [name], p.names ++ [name]⟩
  all : ∀ name, P name → t.isFileAt (p.names ++ [name]) = true →
    ⟨p.join [name], p.names ++ [name]⟩ ∈ found

/-- What a search in the directory of a path answers; `L` says for which paths it may fail. -/
def Finds (t : FileTree) (P : Text → Prop) (L : Path → Prop) (p : Path) :
    Except FileError (Option Path) → Prop
  | .ok (some file) => ∃ name, file = p.join [name] ∧ t.IsFirst P p.names name
  | .ok none => t.Lacks P p.names
  | .error e => e.kind = .nameTooLong ∧ L p

theorem Leads.finds (h : t.Leads P p found) (L : Path → Prop) :
    t.Finds P L p (.ok (((inOrder found).find? fun r => t.isFileAt r.location).map (·.path))) := by
  cases hf : (inOrder found).find? fun r => t.isFileAt r.location with
  | some r =>
    obtain ⟨name, hname, rfl⟩ := h.fits r (mem_inOrder.mp (List.mem_of_find?_eq_some hf))
    have hfile : t.isFileAt (p.names ++ [name]) = true := by simpa using List.find?_some hf
    refine ⟨name, rfl, hname, hfile, ?_⟩
    intro other hother hfile
    have hle := namesLe_of_find? hf (h.all other hother hfile) hfile
    rwa [Path.join, Path.join, namesLe_append_singleton] at hle
  | none =>
    intro name hname
    by_contra hfile
    rw [Bool.not_eq_false] at hfile
    exact List.find?_eq_none.mp hf _ (mem_inOrder.mpr (h.all name hname hfile)) hfile

/-- Nothing is below a place where no directory is. -/
theorem WellFormed.lacks (ht : t.WellFormed) {dir : Location} (h : t.node? dir ≠ some .directory)
    (P : Text → Prop) : t.Lacks P dir := by
  intro name _
  by_contra hfile
  refine h (ht.directory_above (List.cons_ne_nil name []) fun hnone => hfile ?_)
  rw [isFileAt, hnone]

theorem mem_entries {l : Location} {name : Text} {n : Node} :
    (name, n) ∈ t.entries l ↔ (l ++ [name], n) ∈ t.nodes := by
  rw [entries, List.mem_filterMap]
  constructor
  · rintro ⟨⟨at', m⟩, hmem, h⟩
    simp only at h
    split_ifs at h with hdir
    obtain ⟨last, hlast, heq⟩ := Option.map_eq_some_iff.mp h
    cases heq
    obtain ⟨above, rfl⟩ := List.getLast?_eq_some_iff.mp hlast
    rw [List.dropLast_concat] at hdir
    rwa [← hdir]
  · intro hmem
    exact ⟨_, hmem, by simp⟩

theorem exists_mem_of_isFileAt {l : Location} (h : t.isFileAt l = true) :
    ∃ content, (l, Node.file content) ∈ t.nodes := by
  unfold isFileAt node? at h
  split_ifs at h with hl
  cases hn : t.nodes.lookup l with
  | none => simp [hn] at h
  | some n =>
    cases n with
    | directory => simp [hn] at h
    | file content =>
      obtain ⟨before, after, heq, -⟩ := List.lookup_eq_some_iff.mp hn
      exact ⟨content, by simp [heq]⟩

/-- Besides its only file a tree of one directory holds none. -/
theorem eq_of_isFileAt {l m dir : Location} {content : Text.Utf8.Bytes}
    (h : isFileAt ⟨[(dir, .directory), (m, .file content)]⟩ l = true) : l = m := by
  obtain ⟨other, hmem⟩ := exists_mem_of_isFileAt h
  simp only [List.mem_cons, Prod.mk.injEq, reduceCtorEq, and_false, false_or, List.not_mem_nil,
    or_false] at hmem
  exact hmem.1

theorem matching_wild (t : FileTree) (ps : List Pattern.Piece) (r : Reached) :
    t.matching [.wild ps] [r] = .ok (inOrder ((t.entries r.location).filterMap fun e =>
      if Pattern.describes ps e.1 = true then some (r.enter e.1) else none)) := by
  simp [matching, advance, pure, Except.pure, bind, Except.bind]

theorem matching_exact (t : FileTree) (word : Text) (r : Reached) :
    t.matching [.exact word] [r] =
      match t.find? [] (r.path.join [word]).render with
      | .error e => .error e
      | .ok none => .ok (inOrder [])
      | .ok (some (l, _)) => .ok (inOrder [⟨r.path.join [word], l⟩]) := by
  simp only [matching, advance, List.mapM_cons, List.mapM_nil]
  cases t.find? [] (r.path.join [word]).render with
  | error e => rfl
  | ok found => cases found <;> rfl

section

variable (ht : t.WellFormed) (hr : p.root ≠ .relative) (hn : ∀ name ∈ p.names, Path.IsName name)
include ht hr hn

/-- A search in the directory of a path by a pattern that leads there to files. -/
theorem finds_firstFile {pattern : List Pattern.Component} {L : Path → Prop} (hL : p.TooLong → L p)
    (h : t.node? p.names = some .directory →
      (∃ e, t.matching pattern [⟨p, p.names⟩] = .error e ∧ e.kind = .nameTooLong ∧ L p) ∨
        ∃ found, t.matching pattern [⟨p, p.names⟩] = .ok (inOrder found) ∧ t.Leads P p found) :
    t.Finds P L p (t.firstFile? pattern p) := by
  unfold firstFile?
  rcases find?_render ht hr hn with hfind | ⟨hfind, hlong⟩
  · rw [hfind]
    by_cases hdir : t.node? p.names = some .directory
    · simp only [hdir, Option.map_some]
      rcases h hdir with ⟨e, hm, hkind, hl⟩ | ⟨found, hm, hleads⟩
      · rw [hm]
        exact ⟨hkind, hl⟩
      · rw [hm]
        exact hleads.finds L
    · have hlacks : t.Lacks P p.names := ht.lacks hdir P
      cases hnode : t.node? p.names with
      | none => exact hlacks
      | some n =>
        cases n with
        | directory => exact absurd hnode hdir
        | file content => exact hlacks
  · rw [hfind]
    exact ⟨rfl, hL hlong⟩

theorem finds_firstFile_wild (ps : List Pattern.Piece) {L : Path → Prop} (hL : p.TooLong → L p) :
    t.Finds (fun name => Pattern.describes ps name = true) L p (t.firstFile? [.wild ps] p) := by
  refine finds_firstFile ht hr hn hL fun hdir => Or.inr ⟨_, matching_wild t ps _, ?_, ?_⟩
  · intro r hmem
    obtain ⟨⟨name, node⟩, -, h⟩ := List.mem_filterMap.mp hmem
    split_ifs at h with hname
    cases h
    exact ⟨name, hname, rfl⟩
  · intro name hname hfile
    obtain ⟨content, hmem⟩ := exists_mem_of_isFileAt hfile
    exact List.mem_filterMap.mpr ⟨(name, .file content), mem_entries.mpr hmem, if_pos hname⟩

theorem finds_firstFile_exact {word : Text} (hw : Path.IsName word) {L : Path → Prop}
    (hL : (p.join [word]).TooLong → L p) :
    t.Finds (· = word) L p (t.firstFile? [.exact word] p) := by
  have hnames : ∀ name ∈ (p.join [word]).names, Path.IsName name := by
    intro name hname
    rcases List.mem_append.mp hname with hname | hname
    · exact hn name hname
    · rw [List.mem_singleton.mp hname]
      exact hw
  refine finds_firstFile ht hr hn (fun h => hL (h.join hr [word])) fun hdir => ?_
  rw [matching_exact]
  rcases find?_render (p := p.join [word]) ht hr hnames with hfind | ⟨hfind, hlong⟩
  · rw [hfind]
    cases hnode : t.node? (p.join [word]).names with
    | none =>
      refine Or.inr ⟨[], rfl, by simp, ?_⟩
      rintro name rfl hfile
      have hmissing : t.node? (p.names ++ [name]) = none := hnode
      rw [isFileAt, hmissing] at hfile
      cases hfile
    | some n =>
      refine Or.inr ⟨[⟨p.join [word], p.names ++ [word]⟩], rfl, ?_, ?_⟩
      · exact fun r hmem => ⟨word, rfl, List.mem_singleton.mp hmem⟩
      · rintro name rfl -
        exact List.mem_singleton_self _
  · rw [hfind]
    exact Or.inl ⟨_, rfl, rfl, hL hlong⟩

end

/-! ## Upwards -/

/-- The first fitting file of a directory, which lies at or above a place, and below which no
directory on the way there holds one. -/
structure IsNearest (t : FileTree) (P : Text → Prop) (place dir : Location) (name : Text) : Prop
    extends IsFirst t P dir name where
  above : dir <+: place
  nearest : ∀ d, d <+: place → dir.length < d.length → t.Lacks P d

/-- No directory at or above a place holds a fitting file. -/
def LacksAbove (t : FileTree) (P : Text → Prop) (place : Location) : Prop :=
  ∀ d, d <+: place → t.Lacks P d

/-- What a search from a path upwards answers. -/
def FindsUp (t : FileTree) (P : Text → Prop) (L : Path → Prop) (p : Path) :
    Except FileError (Option Path) → Prop
  | .ok (some file) =>
    ∃ dir name, file = ⟨p.root, dir ++ [name]⟩ ∧ t.IsNearest P p.names dir name
  | .ok none => t.LacksAbove P p.names
  | .error e => e.kind = .nameTooLong ∧ L p

theorem IsNearest.unique {place dir dir' : Location} {name name' : Text}
    (h : t.IsNearest P place dir name) (h' : t.IsNearest P place dir' name') :
    dir = dir' ∧ name = name' := by
  have hle : ¬ dir.length < dir'.length := by
    intro hlt
    have hlacks := h.nearest dir' h'.above hlt name' h'.named
    simp [h'.isFile] at hlacks
  have hge : ¬ dir'.length < dir.length := by
    intro hlt
    have hlacks := h'.nearest dir h.above hlt name h.named
    simp [h.isFile] at hlacks
  have hlength : dir.length = dir'.length := by omega
  have hlead := List.prefix_of_prefix_length_le h.above h'.above hlength.le
  obtain rfl := hlead.eq_of_length hlength
  exact ⟨rfl, Text.le_antisymm (h.first name' h'.named h'.isFile) (h'.first name h.named h.isFile)⟩

theorem LacksAbove.not_isNearest {place dir : Location} {name : Text} (h : t.LacksAbove P place) :
    ¬ t.IsNearest P place dir name := by
  intro hn
  have hlacks := h dir hn.above name hn.named
  simp [hn.isFile] at hlacks

section

variable {place dir : Location} {name : Text}
  (honly : ∀ l, t.isFileAt l = true → l = dir ++ [name])
include honly

/-- The only file of a tree is the nearest one from everywhere below its directory. -/
theorem isNearest_of_only (hfile : t.isFileAt (dir ++ [name]) = true) (hname : P name)
    (habove : dir <+: place) : t.IsNearest P place dir name := by
  refine ⟨⟨hname, hfile, ?_⟩, habove, ?_⟩
  · intro other _ hother
    have heq := honly _ hother
    rw [List.append_cancel_left_eq, List.singleton_inj] at heq
    rw [heq]
    exact Text.le_refl name
  · intro d _ hlength other _
    by_contra hother
    have hlengths := congrArg List.length (honly _ (Bool.of_not_eq_false hother))
    rw [List.length_append, List.length_append, List.length_singleton, List.length_singleton]
      at hlengths
    omega

theorem lacksAbove_of_only (hname : ¬ P name) : t.LacksAbove P place := by
  intro d _ other hother
  by_contra hfile
  have heq := congrArg List.getLast? (honly _ (Bool.of_not_eq_false hfile))
  rw [List.getLast?_concat, List.getLast?_concat, Option.some_inj] at heq
  exact hname (heq ▸ hother)

end

theorem eq_or_prefix_dropLast {d l : Location} (h : d <+: l) : d = l ∨ d <+: l.dropLast := by
  rcases List.eq_nil_or_concat l with rfl | ⟨init, last, rfl⟩
  · exact Or.inl (List.prefix_nil.mp h)
  · rw [List.concat_eq_append] at h ⊢
    rw [List.dropLast_concat]
    exact List.prefix_concat_iff.mp h

/-- One step upwards keeps what is known of the directories below. -/
theorem FindsUp.of_parent {L : Path → Prop} {answer : Except FileError (Option Path)}
    (h : t.FindsUp P L p.parent answer) (hl : t.Lacks P p.names) (hL : L p.parent → L p) :
    t.FindsUp P L p answer := by
  match answer with
  | .ok (some file) =>
    obtain ⟨dir, name, rfl, hfirst, habove, hnearest⟩ := h
    refine ⟨dir, name, rfl, hfirst, habove.trans (List.dropLast_prefix _), ?_⟩
    intro d hd hlength
    rcases eq_or_prefix_dropLast hd with rfl | hd
    · exact hl
    · exact hnearest d hd hlength
  | .ok none =>
    intro d hd
    rcases eq_or_prefix_dropLast hd with rfl | hd
    · exact hl
    · exact h d hd
  | .error e => exact ⟨h.1, hL h.2⟩

/-- If the search answers as it should in each single directory, it does so upwards. -/
theorem findsUp_findUp {pattern : List Pattern.Component} {L : Path → Prop}
    (hL : ∀ q : Path, q.root = p.root → L q.parent → L q)
    (h : ∀ q : Path, q.root = p.root → q.names <+: p.names →
      t.Finds P L q (t.firstFile? pattern q)) :
    t.FindsUp P L p (t.findUp pattern p) := by
  fun_induction findUp t pattern p with
  | case1 p e hfirst =>
    have hp := h p rfl (List.prefix_refl _)
    rwa [hfirst] at hp
  | case2 p file hfirst =>
    have hp := h p rfl (List.prefix_refl _)
    rw [hfirst] at hp
    obtain ⟨name, rfl, hname⟩ := hp
    refine ⟨p.names, name, rfl, hname, List.prefix_refl _, ?_⟩
    intro d hd hlength
    exact absurd hd.length_le (Nat.not_le.mpr hlength)
  | case3 p hfirst hroot =>
    have hp := h p rfl (List.prefix_refl _)
    rw [hfirst] at hp
    intro d hd
    obtain rfl : d = p.names := by
      rw [hroot] at hd ⊢
      exact List.prefix_nil.mp hd
    exact hp
  | case4 p hfirst hroot ih =>
    have hp := h p rfl (List.prefix_refl _)
    rw [hfirst] at hp
    have hparent := ih hL fun q hq hnames => h q hq (hnames.trans (List.dropLast_prefix _))
    exact hparent.of_parent hp (hL p rfl)

end FileTree

end CSharpActions
