import CSharpActions.Project.Namespace
import CSharpActions.Proofs.FileTree.Search
import CSharpActions.Proofs.Project.References

/-!
# The rule for namespaces

A root namespace comes from the nearest project file, else from the nearest manifest, else from the
directories alone, and is followed by the directories below the one that it stands for. The rule is
stated about the file tree; the computed answer follows it, unless the manifest exceeds a bound of
JSON texts or the path is too long for the system.
-/
namespace CSharpActions

/-! ## What files declare -/

/-- The text of the project file at a path, which has to be there and must not be kept from being
read. -/
def Workspace.Reads (w : Workspace) (p : Path) (text : Text) : Prop :=
  w.faults.readText p.render = none ∧ ¬ p.TooLong ∧ ∃ content,
    w.tree.node? p.names = some (.file content) ∧
      text = Text.unifyNewlines (Text.Utf8.dropMark (Text.Utf8.decodeLossy content))

theorem Workspace.readProject_eq_ok {w : Workspace} (ht : w.tree.WellFormed) {p : Path}
    (hr : p.root ≠ .relative) (hn : ∀ name ∈ p.names, Path.IsName name) {text : Text} :
    w.readProject p.render = .ok text ↔ w.Reads p text := by
  unfold readProject readRaw Reads
  cases hf : w.faults.readText p.render with
  | some e => simp [Except.map]
  | none =>
    cases hc : w.tree.contentAt w.cwd p.render with
    | ok content =>
      obtain ⟨hnode, hshort⟩ := (FileTree.contentAt_render ht hr hn w.cwd content).mp hc
      simp [Except.map, hnode, hshort, eq_comm]
    | error e =>
      have hnone : ¬ ∃ content, w.tree.node? p.names = some (.file content) ∧ ¬ p.TooLong := by
        rintro ⟨content, h⟩
        rw [(FileTree.contentAt_render ht hr hn w.cwd content).mpr h] at hc
        cases hc
      simp only [Except.map, reduceCtorEq, false_iff]
      rintro ⟨-, hshort, content, hnode, -⟩
      exact hnone ⟨content, hnode, hshort⟩

theorem Workspace.Reads.encodable {w : Workspace} {p : Path} {text : Text} (h : w.Reads p text) :
    Text.Utf8.Encodable text := by
  obtain ⟨-, -, content, -, rfl⟩ := h
  exact Text.Utf8.encodable_unifyNewlines
    (Text.Utf8.encodable_dropMark (Text.Utf8.encodable_decodeLossy content))

/-- The text is a well-formed project, and its first root namespace is not blank. -/
def ProjectFile.Declares (parser : Xml.Parser) (text root : Text) : Prop :=
  ∃ project first rest, parser text = .ok project ∧ project.localName = "Project".text ∧
    (project.childrenNamed "PropertyGroup").flatMap (·.childrenNamed "RootNamespace") =
      first :: rest ∧
    root = Text.trim first.text ∧ root ≠ []

theorem ProjectFile.rootNamespace_read {parser : Xml.Parser} {text root : Text} :
    (∃ file, read parser text = .ok file ∧ file.rootNamespace = some root) ↔
      Declares parser text root := by
  unfold read Declares
  cases parser text with
  | error e => cases e <;> simp
  | ok project =>
    by_cases hname : project.localName = "Project".text
    · simp only [ofRoot, hname, if_true, ofProject, rootNamespaceOf]
      cases hg : (project.childrenNamed "PropertyGroup").flatMap
          (·.childrenNamed "RootNamespace") with
      | nil => simp [hname, hg]
      | cons first rest =>
        simp only [List.isEmpty_iff]
        split_ifs with hblank <;> simp [hname, hg] <;> grind
    · simp [ofRoot, hname]

/-- Only a text that is not handed over is not read. -/
theorem ProjectFile.read_eq_error {parser : Xml.Parser} {text : Text} {e : Xml.Failure}
    (h : read parser text = .error e) : e = .unencodable ∧ parser text = .error .unencodable := by
  unfold read at h
  cases hp : parser text with
  | ok root => simp [hp] at h
  | error e' => cases e' <;> simp_all

/-- The text is JSON that is nested no deeper than the number says, and the field in question is a
string. -/
def Manifest.Declares (nesting : Nat) (text root : Text) : Prop :=
  ∃ v tooling, Json.parse nesting text = .ok v ∧ v.field? "tooling" = some tooling ∧
    tooling.field? "defaultNamespace" = some (.str root)

theorem Manifest.rootNamespace_eq_ok {nesting : Nat} {text root : Text} :
    rootNamespace nesting text = .ok (some root) ↔ Declares nesting text root := by
  unfold rootNamespace Declares
  cases Json.parse nesting text with
  | error e => cases e <;> simp
  | ok v =>
    have htext : ∀ x : Json, x.text? = some root ↔ x = .str root := by
      intro x
      cases x <;> simp [Json.text?]
    simp [Option.bind_eq_some_iff, htext]

theorem Manifest.rootNamespace_eq_error {nesting : Nat} {text : Text} {l : Json.Limit} :
    rootNamespace nesting text = .error l ↔ Json.parse nesting text = .error (.limit l) := by
  unfold rootNamespace
  cases Json.parse nesting text with
  | error e => cases e <;> simp
  | ok v => simp

namespace NamespaceQuery

def IsProjectName (name : Text) : Prop := ".csproj".text <:+ name

instance (name : Text) : Decidable (IsProjectName name) := inferInstanceAs (Decidable (_ <:+ _))

def IsManifestName (name : Text) : Prop := name = "project.json".text

/-! ## The rule -/

section

variable (w : Workspace) (q : NamespaceQuery)

/-- The nearest file with a fitting name is in the directory, and it can be read as the text. -/
def HasNearest (P : Text → Prop) (dir : Location) (text : Text) : Prop :=
  ∃ name, w.tree.IsNearest P q.directory.names dir name ∧
    w.Reads ⟨q.directory.root, dir ++ [name]⟩ text

/-- The nearest project file declares the root namespace of its directory. -/
def ProjectDeclares (dir : Location) (root : Text) : Prop :=
  ∃ text, q.HasNearest w IsProjectName dir text ∧
    ProjectFile.Declares w.platform.parseXml text root

/-- The nearest manifest declares the root namespace of its directory. -/
def ManifestDeclares (dir : Location) (root : Text) : Prop :=
  ∃ text, q.HasNearest w IsManifestName dir text ∧
    Manifest.Declares w.platform.jsonNesting text root

/-- The directory whose subdirectories make a namespace if nothing declares one: the one above the
directory of the nearest project file, else of the nearest manifest, else the given root, or else
the root of the tree. -/
inductive LayoutBase : Location → Prop
  | project {dir : Location} {name : Text}
      (nearest : w.tree.IsNearest IsProjectName q.directory.names dir name) :
      LayoutBase dir.dropLast
  | manifest {dir : Location} {name : Text}
      (noProject : w.tree.LacksAbove IsProjectName q.directory.names)
      (nearest : w.tree.IsNearest IsManifestName q.directory.names dir name) :
      LayoutBase dir.dropLast
  | given {root : Path} (noProject : w.tree.LacksAbove IsProjectName q.directory.names)
      (noManifest : w.tree.LacksAbove IsManifestName q.directory.names)
      (isGiven : q.root = some root) (above : root.names <+: q.directory.names) :
      LayoutBase root.names
  /-- Of a given root elsewhere only the depth counts. -/
  | elsewhere {root : Path} (noProject : w.tree.LacksAbove IsProjectName q.directory.names)
      (noManifest : w.tree.LacksAbove IsManifestName q.directory.names)
      (isGiven : q.root = some root) (beside : ¬ root.names <+: q.directory.names) :
      LayoutBase (q.directory.names.take root.names.length)
  | top (noProject : w.tree.LacksAbove IsProjectName q.directory.names)
      (noManifest : w.tree.LacksAbove IsManifestName q.directory.names)
      (notGiven : q.root = none) :
      LayoutBase []

/-- The namespace of a query by the rule. -/
inductive Resolves : Text → Prop
  | project {dir : Location} {root : Text} {segments : List Text}
      (declares : q.ProjectDeclares w dir root) (below : dir ++ segments = q.directory.names) :
      Resolves (root ++ segments.flatMap (.char '.' :: ·))
  | manifest {dir : Location} {root : Text} {segments : List Text}
      (noProject : ∀ dir root, ¬ q.ProjectDeclares w dir root)
      (declares : q.ManifestDeclares w dir root) (below : dir ++ segments = q.directory.names) :
      Resolves (root ++ segments.flatMap (.char '.' :: ·))
  | layout {base : Location} {segments : List Text}
      (noProject : ∀ dir root, ¬ q.ProjectDeclares w dir root)
      (noManifest : ∀ dir root, ¬ q.ManifestDeclares w dir root)
      (counted : q.LayoutBase w base) (below : base ++ segments = q.directory.names) :
      Resolves ((segments.flatMap (.char '.' :: ·)).drop 1)

/-- The nearest project file is not handed over to the parser. -/
def Refused : Prop :=
  ∃ dir text, q.HasNearest w IsProjectName dir text ∧
    w.platform.parseXml text = .error .unencodable

/-- The nearest manifest exceeds a bound of JSON texts. -/
def ManifestExceeds (l : Json.Limit) : Prop :=
  ∃ dir text, q.HasNearest w IsManifestName dir text ∧
    Json.parse w.platform.jsonNesting text = .error (.limit l)

/-- No project declares a namespace, so that the manifest counts, and that exceeds a bound. -/
def Exceeds (l : Json.Limit) : Prop :=
  (∀ dir root, ¬ q.ProjectDeclares w dir root) ∧ q.ManifestExceeds w l

/-- The path of a manifest beside the file is too long for the system. -/
def TooLong : Prop := (q.directory.join ["project.json"]).TooLong

instance : Decidable q.TooLong := inferInstanceAs (Decidable (Path.TooLong _))

end

variable {w : Workspace} {q : NamespaceQuery} {P : Text → Prop} {dir : Location}

/-! ## The rule leaves no choice -/

theorem reads_unique {p : Path} {a b : Text} (h : w.Reads p a) (h' : w.Reads p b) : a = b := by
  obtain ⟨-, -, content, hnode, rfl⟩ := h
  obtain ⟨-, -, content', hnode', rfl⟩ := h'
  rw [hnode] at hnode'
  cases hnode'
  rfl

theorem HasNearest.unique {dir' : Location} {text text' : Text} (h : q.HasNearest w P dir text)
    (h' : q.HasNearest w P dir' text') : dir = dir' ∧ text = text' := by
  obtain ⟨name, hnear, hreads⟩ := h
  obtain ⟨name', hnear', hreads'⟩ := h'
  obtain ⟨rfl, rfl⟩ := hnear.unique hnear'
  exact ⟨rfl, reads_unique hreads hreads'⟩

theorem ProjectDeclares.unique {dir' : Location} {root root' : Text}
    (h : q.ProjectDeclares w dir root) (h' : q.ProjectDeclares w dir' root') :
    dir = dir' ∧ root = root' := by
  obtain ⟨text, hnear, hroot⟩ := h
  obtain ⟨text', hnear', hroot'⟩ := h'
  obtain ⟨rfl, rfl⟩ := hnear.unique hnear'
  obtain ⟨file, hread, hroot⟩ := ProjectFile.rootNamespace_read.mpr hroot
  obtain ⟨file', hread', hroot'⟩ := ProjectFile.rootNamespace_read.mpr hroot'
  obtain rfl := Except.ok.inj (hread.symm.trans hread')
  exact ⟨rfl, Option.some_inj.mp (hroot.symm.trans hroot')⟩

theorem ManifestDeclares.unique {dir' : Location} {root root' : Text}
    (h : q.ManifestDeclares w dir root) (h' : q.ManifestDeclares w dir' root') :
    dir = dir' ∧ root = root' := by
  obtain ⟨text, hnear, hroot⟩ := h
  obtain ⟨text', hnear', hroot'⟩ := h'
  obtain ⟨rfl, rfl⟩ := hnear.unique hnear'
  rw [← Manifest.rootNamespace_eq_ok] at hroot hroot'
  exact ⟨rfl, by simpa using hroot.symm.trans hroot'⟩

theorem ManifestDeclares.not_manifestExceeds {root : Text} {l : Json.Limit}
    (h : q.ManifestDeclares w dir root) : ¬ q.ManifestExceeds w l := by
  rintro ⟨dir', text', hnear', hlimit⟩
  obtain ⟨text, hnear, v, tooling, hparse, -, -⟩ := h
  obtain ⟨rfl, rfl⟩ := hnear.unique hnear'
  rw [hparse] at hlimit
  cases hlimit

theorem LayoutBase.unique {a b : Location} (h : q.LayoutBase w a) (h' : q.LayoutBase w b) :
    a = b := by
  cases h with
  | project hn =>
    cases h' with
    | project hn' => rw [(hn.unique hn').1]
    | manifest hp => exact absurd hn hp.not_isNearest
    | given hp => exact absurd hn hp.not_isNearest
    | elsewhere hp => exact absurd hn hp.not_isNearest
    | top hp => exact absurd hn hp.not_isNearest
  | manifest hp hn =>
    cases h' with
    | project hn' => exact absurd hn' hp.not_isNearest
    | manifest _ hn' => rw [(hn.unique hn').1]
    | given _ hm => exact absurd hn hm.not_isNearest
    | elsewhere _ hm => exact absurd hn hm.not_isNearest
    | top _ hm => exact absurd hn hm.not_isNearest
  | given hp hm hr ha =>
    cases h' with
    | project hn => exact absurd hn hp.not_isNearest
    | manifest _ hn => exact absurd hn hm.not_isNearest
    | given _ _ hr' => simp_all
    | elsewhere _ _ hr' hb => simp_all
    | top _ _ hr' => simp_all
  | elsewhere hp hm hr hb =>
    cases h' with
    | project hn => exact absurd hn hp.not_isNearest
    | manifest _ hn => exact absurd hn hm.not_isNearest
    | given _ _ hr' => simp_all
    | elsewhere _ _ hr' => simp_all
    | top _ _ hr' => simp_all
  | top hp hm hr =>
    cases h' with
    | project hn => exact absurd hn hp.not_isNearest
    | manifest _ hn => exact absurd hn hm.not_isNearest
    | given _ _ hr' => simp_all
    | elsewhere _ _ hr' => simp_all
    | top => rfl

theorem Resolves.unique {m n : Text} (h : q.Resolves w m) (h' : q.Resolves w n) : m = n := by
  cases h with
  | project hd hb =>
    cases h' with
    | project hd' hb' =>
      obtain ⟨rfl, rfl⟩ := hd.unique hd'
      rw [List.append_cancel_left (hb.trans hb'.symm)]
    | manifest hp => exact absurd hd (hp _ _)
    | layout hp => exact absurd hd (hp _ _)
  | manifest hp hd hb =>
    cases h' with
    | project hd' => exact absurd hd' (hp _ _)
    | manifest _ hd' hb' =>
      obtain ⟨rfl, rfl⟩ := hd.unique hd'
      rw [List.append_cancel_left (hb.trans hb'.symm)]
    | layout _ hm => exact absurd hd (hm _ _)
  | layout hp hm hc hb =>
    cases h' with
    | project hd => exact absurd hd (hp _ _)
    | manifest _ hd => exact absurd hd (hm _ _)
    | layout _ _ hc' hb' =>
      obtain rfl := hc.unique hc'
      rw [List.append_cancel_left (hb.trans hb'.symm)]

/-! ## What is computed -/

theorem full_eq {root : Text} {kind : Path.Root} {segments : List Text}
    (h : dir ++ segments = q.directory.names) :
    q.full root ⟨kind, dir⟩ = root ++ segments.flatMap (.char '.' :: ·) := by
  rw [full, ← h, List.drop_left]

/-- The directories below a base make the namespace; of the path of the base only the depth
counts. -/
theorem fromLayout_eq {base : Path} (h : q.rootPath w = .ok base) {segments : List Text}
    (hbase : q.LayoutBase w dir) (hbelow : dir ++ segments = q.directory.names)
    (hdepth : q.directory.names.drop base.names.length = segments) :
    ∃ base segments, q.fromLayout w = .ok ((segments.flatMap (.char '.' :: ·)).drop 1) ∧
      q.LayoutBase w base ∧ base ++ segments = q.directory.names := by
  refine ⟨dir, segments, ?_, hbase, hbelow⟩
  rw [fromLayout, h, Except.map, full, hdepth, List.nil_append]

theorem describes_projectPattern :
    (fun name => Pattern.describes (Pattern.ofName "*.csproj") name = true) = IsProjectName := by
  funext name
  have hpieces : Pattern.ofName "*.csproj" = .any :: ".csproj".text.map .literal := by decide
  rw [hpieces, Pattern.describes_any_literal, IsProjectName]

section

variable (ht : w.tree.WellFormed) (hr : q.directory.root ≠ .relative)
  (hn : ∀ name ∈ q.directory.names, Path.IsName name)
include ht hr

/-- A search for the nearest file fails for a long path, it leads to nothing that can be read, or to
the text of the nearest file. -/
theorem nearest_cases {pattern : List Pattern.Component}
    (h : w.tree.FindsUp P (fun p => (p.join ["project.json".text]).TooLong) q.directory
      (w.tree.findUp pattern q.directory)) :
    (∃ e, w.tree.findUp pattern q.directory = .error e ∧ e.kind = .nameTooLong ∧ q.TooLong) ∨
      ((∀ dir text, ¬ q.HasNearest w P dir text) ∧
        (w.tree.findUp pattern q.directory = .ok none ∨
          ∃ file e, w.tree.findUp pattern q.directory = .ok (some file) ∧
            w.readProject file.render = .error e)) ∨
      ∃ dir name segments text,
        w.tree.findUp pattern q.directory = .ok (some ⟨q.directory.root, dir ++ [name]⟩) ∧
        w.readProject (Path.mk q.directory.root (dir ++ [name])).render = .ok text ∧
        dir ++ segments = q.directory.names ∧ q.HasNearest w P dir text := by
  match hup : w.tree.findUp pattern q.directory with
  | .error e =>
    rw [hup] at h
    exact Or.inl ⟨e, rfl, h⟩
  | .ok none =>
    rw [hup] at h
    refine Or.inr (Or.inl ⟨?_, Or.inl rfl⟩)
    rintro dir text ⟨name, hnear, -⟩
    exact h.not_isNearest hnear
  | .ok (some file) =>
    rw [hup] at h
    obtain ⟨dir, name, rfl, hnear⟩ := h
    obtain ⟨segments, hbelow⟩ := hnear.above
    have hnode : w.tree.node? (dir ++ [name]) ≠ none := by
      intro hnone
      have hfile := hnear.isFile
      rw [FileTree.isFileAt, hnone] at hfile
      cases hfile
    have hreads : ∀ text, w.readProject (Path.mk q.directory.root (dir ++ [name])).render =
        .ok text ↔ w.Reads ⟨q.directory.root, dir ++ [name]⟩ text :=
      fun _ => Workspace.readProject_eq_ok (p := ⟨q.directory.root, dir ++ [name]⟩) ht hr
        fun part hpart => (ht.isEntryName hnode part hpart).toIsName
    cases hread : w.readProject (Path.mk q.directory.root (dir ++ [name])).render with
    | error e =>
      refine Or.inr (Or.inl ⟨?_, Or.inr ⟨_, e, rfl, hread⟩⟩)
      rintro dir' text ⟨name', hnear', htext⟩
      obtain ⟨rfl, rfl⟩ := hnear.unique hnear'
      rw [(hreads text).mpr htext] at hread
      cases hread
    | ok text =>
      exact Or.inr (Or.inr ⟨dir, name, segments, text, rfl, hread, hbelow, name, hnear,
        (hreads text).mp hread⟩)

include hn

theorem findsUp_project :
    w.tree.FindsUp IsProjectName (fun p => (p.join ["project.json".text]).TooLong) q.directory
      (w.tree.findUp projectPattern q.directory) := by
  refine FileTree.findsUp_findUp (fun p hp h => ?_) fun p hp hnames => ?_
  · exact h.of_parent (by rwa [hp])
  · rw [← describes_projectPattern]
    refine FileTree.finds_firstFile_wild ht (by rwa [hp]) (fun part hpart => ?_) _ fun h => ?_
    · exact hn part (hnames.subset hpart)
    · exact h.join (by rwa [hp]) _

theorem findsUp_manifest :
    w.tree.FindsUp IsManifestName (fun p => (p.join ["project.json".text]).TooLong) q.directory
      (w.tree.findUp manifestPattern q.directory) := by
  refine FileTree.findsUp_findUp (fun p hp h => ?_) fun p hp hnames => ?_
  · exact h.of_parent (by rwa [hp])
  · refine FileTree.finds_firstFile_exact ht (by rwa [hp]) (fun part hpart => ?_) (by decide) id
    exact hn part (hnames.subset hpart)

theorem fromProject_cases :
    (∃ dir root segments,
        q.fromProject w = .ok (some (root ++ segments.flatMap (.char '.' :: ·))) ∧
        q.ProjectDeclares w dir root ∧ dir ++ segments = q.directory.names) ∨
      (q.fromProject w = .ok none ∧ ∀ dir root, ¬ q.ProjectDeclares w dir root) ∨
      (q.fromProject w = .error (.xml .unencodable) ∧ q.Refused w) ∨
      ∃ e, q.fromProject w = .error (.file e) ∧ e.kind = .nameTooLong ∧ q.TooLong := by
  rcases nearest_cases ht hr (findsUp_project ht hr hn) with ⟨e, hup, hlong⟩ | ⟨hnone, hup⟩ |
    ⟨dir, name, segments, text, hup, hread, hbelow, htext⟩
  · exact Or.inr (Or.inr (Or.inr ⟨e, by rw [fromProject, hup], hlong⟩))
  · refine Or.inr (Or.inl ⟨?_, ?_⟩)
    · rcases hup with hup | ⟨file, e, hup, hread⟩
      · rw [fromProject, hup]
      · simp only [fromProject, hup, hread]
    · rintro dir root ⟨text, htext, -⟩
      exact hnone dir text htext
  · simp only [fromProject, hup, hread]
    cases hfile : ProjectFile.read w.platform.parseXml text with
    | error e =>
      obtain ⟨rfl, hparse⟩ := ProjectFile.read_eq_error hfile
      exact Or.inr (Or.inr (Or.inl ⟨rfl, dir, text, htext, hparse⟩))
    | ok file =>
      cases hroot : file.rootNamespace with
      | some root =>
        refine Or.inl ⟨dir, root, segments, ?_, ⟨text, htext, ?_⟩, hbelow⟩
        · simp only [hroot, Option.map_some, Path.parent, List.dropLast_concat]
          rw [full_eq hbelow]
        · exact ProjectFile.rootNamespace_read.mp ⟨file, hfile, hroot⟩
      | none =>
        refine Or.inr (Or.inl ⟨by simp [hroot], ?_⟩)
        rintro dir' root ⟨text', htext', hdeclares⟩
        obtain ⟨rfl, rfl⟩ := htext.unique htext'
        obtain ⟨file', hfile', hroot'⟩ := ProjectFile.rootNamespace_read.mpr hdeclares
        obtain rfl := Except.ok.inj (hfile.symm.trans hfile')
        rw [hroot] at hroot'
        cases hroot'

theorem fromManifest_cases :
    (∃ dir root segments,
        q.fromManifest w = .ok (some (root ++ segments.flatMap (.char '.' :: ·))) ∧
        q.ManifestDeclares w dir root ∧ dir ++ segments = q.directory.names) ∨
      (q.fromManifest w = .ok none ∧ (∀ dir root, ¬ q.ManifestDeclares w dir root) ∧
        ∀ l, ¬ q.ManifestExceeds w l) ∨
      (∃ l, q.fromManifest w = .error (.limit l) ∧ q.ManifestExceeds w l) ∨
      ∃ e, q.fromManifest w = .error (.file e) ∧ e.kind = .nameTooLong ∧ q.TooLong := by
  rcases nearest_cases ht hr (findsUp_manifest ht hr hn) with ⟨e, hup, hlong⟩ | ⟨hnone, hup⟩ |
    ⟨dir, name, segments, text, hup, hread, hbelow, htext⟩
  · exact Or.inr (Or.inr (Or.inr ⟨e, by rw [fromManifest, hup], hlong⟩))
  · refine Or.inr (Or.inl ⟨?_, ?_, ?_⟩)
    · rcases hup with hup | ⟨file, e, hup, hread⟩
      · rw [fromManifest, hup]
      · simp only [fromManifest, hup, hread]
    · rintro dir root ⟨text, htext, -⟩
      exact hnone dir text htext
    · rintro l ⟨dir, text, htext, -⟩
      exact hnone dir text htext
  · simp only [fromManifest, hup, hread]
    cases hroot : Manifest.rootNamespace w.platform.jsonNesting text with
    | error l =>
      exact Or.inr (Or.inr (Or.inl ⟨l, rfl, dir, text, htext,
        Manifest.rootNamespace_eq_error.mp hroot⟩))
    | ok found =>
      cases found with
      | some root =>
        refine Or.inl ⟨dir, root, segments, ?_, ⟨text, htext, ?_⟩, hbelow⟩
        · simp only [Option.map_some, Path.parent, List.dropLast_concat]
          rw [full_eq hbelow]
        · exact Manifest.rootNamespace_eq_ok.mp hroot
      | none =>
        refine Or.inr (Or.inl ⟨rfl, ?_, ?_⟩)
        · rintro dir' root ⟨text', htext', hdeclares⟩
          obtain ⟨rfl, rfl⟩ := htext.unique htext'
          rw [Manifest.rootNamespace_eq_ok.mpr hdeclares] at hroot
          cases hroot
        · rintro l ⟨dir', text', htext', hlimit⟩
          obtain ⟨rfl, rfl⟩ := htext.unique htext'
          rw [Manifest.rootNamespace_eq_error.mpr hlimit] at hroot
          cases hroot

theorem fromLayout_cases :
    (∃ base segments, q.fromLayout w = .ok ((segments.flatMap (.char '.' :: ·)).drop 1) ∧
        q.LayoutBase w base ∧ base ++ segments = q.directory.names) ∨
      ∃ e, q.fromLayout w = .error e ∧ e.kind = .nameTooLong ∧ q.TooLong := by
  have hproject := findsUp_project ht hr hn
  have hmanifest := findsUp_manifest ht hr hn
  have habove : ∀ {dir : Location}, dir <+: q.directory.names →
      ∃ segments, dir.dropLast ++ segments = q.directory.names ∧
        q.directory.names.drop dir.dropLast.length = segments := by
    intro dir hdir
    obtain ⟨segments, hbelow⟩ := (List.dropLast_prefix dir).trans hdir
    exact ⟨segments, hbelow, by rw [← hbelow, List.drop_left]⟩
  match hp : w.tree.findUp projectPattern q.directory with
  | .error e =>
    rw [hp] at hproject
    exact Or.inr ⟨e, by simp [fromLayout, rootPath, hp, Except.map], hproject⟩
  | .ok (some file) =>
    rw [hp] at hproject
    obtain ⟨dir, name, rfl, hnear⟩ := hproject
    obtain ⟨segments, hbelow, hdrop⟩ := habove hnear.above
    have hroot : q.rootPath w = .ok ⟨q.directory.root, dir.dropLast⟩ := by
      simp [rootPath, hp, Path.parent]
    exact Or.inl (fromLayout_eq hroot (.project hnear) hbelow hdrop)
  | .ok none =>
    rw [hp] at hproject
    match hm : w.tree.findUp manifestPattern q.directory with
    | .error e =>
      rw [hm] at hmanifest
      exact Or.inr ⟨e, by simp [fromLayout, rootPath, hp, hm, Except.map], hmanifest⟩
    | .ok (some file) =>
      rw [hm] at hmanifest
      obtain ⟨dir, name, rfl, hnear⟩ := hmanifest
      obtain ⟨segments, hbelow, hdrop⟩ := habove hnear.above
      have hroot : q.rootPath w = .ok ⟨q.directory.root, dir.dropLast⟩ := by
        simp [rootPath, hp, hm, Path.parent]
      exact Or.inl (fromLayout_eq hroot (.manifest hproject hnear) hbelow hdrop)
    | .ok none =>
      rw [hm] at hmanifest
      cases hgiven : q.root with
      | none =>
        have hroot : q.rootPath w = .ok { q.directory with names := [] } := by
          simp [rootPath, hp, hm, hgiven]
        exact Or.inl (fromLayout_eq hroot (.top hproject hmanifest hgiven) rfl rfl)
      | some root =>
        have hroot : q.rootPath w = .ok root := by simp [rootPath, hp, hm, hgiven]
        by_cases hlead : root.names <+: q.directory.names
        · obtain ⟨segments, hbelow⟩ := hlead
          have hdrop : q.directory.names.drop root.names.length = segments := by
            rw [← hbelow, List.drop_left]
          exact Or.inl (fromLayout_eq hroot (.given hproject hmanifest hgiven ⟨segments, hbelow⟩)
            hbelow hdrop)
        · exact Or.inl (fromLayout_eq hroot (.elsewhere hproject hmanifest hgiven hlead)
            (List.take_append_drop _ _) rfl)

/-- The answer is the namespace by the rule, unless the manifest exceeds a bound, the project file
is not handed over or the path is too long. -/
theorem answer_cases :
    (∃ n, q.answer w = .ok n ∧ q.Resolves w n ∧ ∀ l, ¬ q.Exceeds w l) ∨
      (∃ l, q.answer w = .error (.limit l) ∧ q.Exceeds w l) ∨
      (q.answer w = .error (.xml .unencodable) ∧ q.Refused w) ∨
      ∃ e, q.answer w = .error (.file e) ∧ e.kind = .nameTooLong ∧ q.TooLong := by
  unfold answer
  rcases fromProject_cases ht hr hn with ⟨dir, root, segments, hp, hdeclares, hbelow⟩ |
    ⟨hp, hproject⟩ | ⟨hp, hrefused⟩ | ⟨e, hp, hlong⟩
  · exact Or.inl ⟨_, by rw [hp], .project hdeclares hbelow, fun l h => h.1 dir root hdeclares⟩
  · rw [hp]
    rcases fromManifest_cases ht hr hn with ⟨dir, root, segments, hm, hdeclares, hbelow⟩ |
      ⟨hm, hmanifest, hbound⟩ | ⟨l, hm, hexceeds⟩ | ⟨e, hm, hlong⟩
    · exact Or.inl ⟨_, by rw [hm], .manifest hproject hdeclares hbelow,
        fun l h => hdeclares.not_manifestExceeds h.2⟩
    · rw [hm]
      rcases fromLayout_cases ht hr hn with ⟨base, segments, hl, hbase, hbelow⟩ | ⟨e, hl, hlong⟩
      · exact Or.inl ⟨_, by rw [hl], .layout hproject hmanifest hbase hbelow,
          fun l h => hbound l h.2⟩
      · exact Or.inr (Or.inr (Or.inr ⟨e, by rw [hl], hlong⟩))
    · exact Or.inr (Or.inl ⟨l, by rw [hm], hproject, hexceeds⟩)
    · exact Or.inr (Or.inr (Or.inr ⟨e, by rw [hm], hlong⟩))
  · exact Or.inr (Or.inr (Or.inl ⟨by rw [hp], hrefused⟩))
  · exact Or.inr (Or.inr (Or.inr ⟨e, by rw [hp], hlong⟩))

end

theorem directory_ofPaths_root (w : Workspace) (path : Text) (root : Option Text) :
    (ofPaths w path root).directory.root ≠ .relative := by
  change (if Path.rootOf path = .doubleSlash then Path.Root.doubleSlash else .slash) ≠ .relative
  split_ifs <;> simp

theorem isName_of_mem_ofPaths (hc : ∀ name ∈ w.cwd, Path.IsName name) (path : Text)
    (root : Option Text) : ∀ name ∈ (ofPaths w path root).directory.names, Path.IsName name :=
  fun name h => Path.isName_of_mem_resolve hc path name (List.dropLast_subset _ h)

/-- What is read with replacements can be encoded, so that a parser of such texts refuses none. -/
theorem not_refused (h : Xml.TakesEncodable w.platform.parseXml) : ¬ q.Refused w := by
  rintro ⟨dir, text, ⟨name, -, hreads⟩, hrefused⟩
  exact h text hreads.encodable hrefused

end NamespaceQuery

end CSharpActions
