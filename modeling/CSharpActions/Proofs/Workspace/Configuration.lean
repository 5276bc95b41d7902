import CSharpActions.Proofs.FileTree.WellFormed
import CSharpActions.Proofs.Json.Bounds
import CSharpActions.Workspace.Config

/-!
# The configuration file of a project

Reading and writing the settings of a project comes down to one entry of the file tree, unless the
path of this entry is too long for the system.
-/
namespace CSharpActions

open Text.Utf8 (Bytes Encodable)

theorem Text.unifyNewlines_eq_self {t : Text} (h : CodePoint.char '\r' ∉ t) :
    unifyNewlines t = t := by
  fun_induction unifyNewlines t with
  | case1 => rfl
  | case2 r ih => simp at h
  | case3 c r _ ih =>
    obtain ⟨hc, hr⟩ := List.ne_and_not_mem_of_not_mem_cons h
    rw [if_neg (Ne.symm hc), ih hr]

namespace Path

variable {names : List Text}

theorem rootOf_render (h : ∀ name ∈ names, IsName name) :
    rootOf (Path.mk .slash names).render = .slash := by
  have hwords : ∀ r, List.intercalate "/" names ≠ .char '/' :: r := by
    intro r hr
    by_cases hne : names = []
    · rw [hne] at hr
      cases hr
    · have hparts := parts_intercalate hne h
      rw [hr, parts_slash] at hparts
      have hempty := (h [] (hparts ▸ List.mem_cons_self)).notHere
      simp [isHere] at hempty
  change rootOf (.char '/' :: List.intercalate "/" names) = .slash
  unfold rootOf
  split
  · rfl
  · rename_i heq
    exact absurd (List.cons.inj heq).2 (hwords _)
  · rfl
  · rename_i hslash
    exact absurd rfl (hslash _)

/-- A path that is written out is read as the same path. -/
theorem ofText_render (h : ∀ name ∈ names, IsName name) :
    ofText (Path.mk .slash names).render = ⟨.slash, names⟩ := by
  obtain ⟨blank, hblank, hparts⟩ := exists_parts_render (p := ⟨.slash, names⟩) (by simp) h
  have hdrop : blank.filter (fun p => !isHere p) = [] := by
    rw [List.filter_eq_nil_iff]
    intro part hpart
    simp [hblank part hpart, isHere]
  have hkeep : names.filter (fun p => !isHere p) = names := by
    rw [List.filter_eq_self]
    intro name hname
    simp [(h name hname).notHere]
  rw [ofText, rootOf_render h, hparts, List.filter_append, hdrop, hkeep, List.nil_append]

theorem foldl_step_blank {blank : List Text} (h : ∀ part ∈ blank, part = []) (l : Location) :
    blank.foldl step l = l := by
  induction blank with
  | nil => rfl
  | cons part blank ih =>
    obtain ⟨rfl, hblank⟩ := List.forall_mem_cons.mp h
    exact ih hblank

theorem resolve_render {p : Path} (hr : p.root ≠ .relative) (h : ∀ name ∈ p.names, IsName name)
    (cwd : Location) : resolve cwd p.render = p.names := by
  obtain ⟨blank, hblank, hparts⟩ := exists_parts_render hr h
  obtain ⟨rest, hrest⟩ := exists_render_eq_cons hr
  have habsolute : isAbsolute p.render = true := by rw [hrest, isAbsolute_slash]
  rw [resolve, if_pos habsolute, hparts, List.foldl_append, foldl_step_blank hblank,
    foldl_step_of_isName h, List.nil_append]

end Path

namespace FileTree

variable {t t' : FileTree} {cwd l : Location} {path : Text} {p : Path}

theorem find?_eq_of_absolute (hr : p.root ≠ .relative) (cwd : Location) :
    t.find? cwd p.render = t.find? [] p.render := by
  obtain ⟨rest, hrest⟩ := Path.exists_render_eq_cons hr
  have hstart : ∀ l, startOf l p.render = [] := by
    intro l
    rw [startOf, hrest, if_pos (Path.isAbsolute_slash rest)]
  unfold find? stat
  rw [hstart cwd, hstart []]

/-- An entry is made where its path leads by the words. -/
theorem eq_resolve_of_placeFor (h : t.placeFor cwd path = .ok l) :
    objection? path = none ∧ l = Path.resolve cwd path := by
  unfold placeFor at h
  split at h
  · cases h
  · cases h
  · rename_i last above ho hp
    refine ⟨ho, ?_⟩
    split at h
    · cases h
    · rename_i dir hdir
      split at h
      · split_ifs at h
        obtain rfl := Except.ok.inj h
        have hparts : Path.parts path = above.reverse ++ [last] := by
          rw [← List.reverse_reverse (Path.parts path), hp, List.reverse_cons]
        rw [Path.resolve, hparts, List.foldl_append, eq_of_walk hdir]
        rfl
      · cases h
      · cases h

theorem node?_makeDirectory (h : t.makeDirectory cwd path = .ok t') {m : Location}
    (hm : m ≠ Path.resolve cwd path) : t'.node? m = t.node? m := by
  unfold makeDirectory at h
  split at h
  · cases h
  · rename_i l hl
    obtain ⟨-, rfl⟩ := eq_resolve_of_placeFor hl
    split at h
    · rw [Except.ok.inj h]
    · cases h
    · rename_i hnone
      obtain rfl := Except.ok.inj h
      have hne : Path.resolve cwd path ≠ [] := by
        intro he
        rw [he] at hnone
        cases hnone
      rw [node?_put hne, if_neg hm]

theorem node?_store {content : Text.Utf8.Bytes} (h : t.store cwd path content = .ok t') :
    objection? path = none ∧ t'.node? (Path.resolve cwd path) = some (.file content) := by
  unfold store at h
  split at h
  · cases h
  · rename_i l hl
    obtain ⟨ho, rfl⟩ := eq_resolve_of_placeFor hl
    refine ⟨ho, ?_⟩
    split at h
    · cases h
    · rename_i hnode
      obtain rfl := Except.ok.inj h
      have hne : Path.resolve cwd path ≠ [] := by
        intro he
        exact hnode (by rw [he]; rfl)
      rw [node?_put hne, if_pos rfl]

end FileTree

namespace Workspace

/-- The configuration file below a root. -/
def configFile (root : Location) : Path := (Path.mk .slash root).join [".sharpkit", "config.json"]

variable {w : Workspace} {root : Location}

theorem configPath_render (h : ∀ name ∈ root, Path.IsName name) :
    configPath root.render = (configFile root).render := by
  rw [configPath, Location.render, Path.ofText_render h]
  rfl

theorem configDirectory_render (h : ∀ name ∈ root, Path.IsName name) :
    configDirectory root.render = (Path.mk .slash (root ++ [".sharpkit".text])).render := by
  rw [configDirectory, Location.render, Path.ofText_render h]
  rfl

theorem isName_of_mem_configFile (h : ∀ name ∈ root, Path.IsName name) :
    ∀ name ∈ (configFile root).names, Path.IsName name := by
  intro name hname
  have hnames : name ∈ root ++ [".sharpkit".text, "config.json"] := hname
  rcases List.mem_append.mp hnames with hname | hname
  · exact h name hname
  · have hlast : ∀ name ∈ [".sharpkit".text, "config.json"], Path.IsName name := by decide
    exact hlast name hname

theorem root_configFile (root : Location) : (configFile root).root ≠ .relative := by
  simp [configFile, Path.join]

theorem readRaw_config (ht : w.tree.WellFormed) (hn : ∀ name ∈ root, Path.IsName name)
    {bytes : Text.Utf8.Bytes} : w.readRaw (configPath root.render) = .ok bytes ↔
      w.faults.readText (configPath root.render) = none ∧
        w.tree.node? (configFile root).names = some (.file bytes) ∧ ¬(configFile root).TooLong := by
  rw [configPath_render hn, readRaw, ← FileTree.contentAt_render ht (root_configFile root)
    (isName_of_mem_configFile hn) w.cwd bytes]
  cases w.faults.readText (configFile root).render with
  | some e => simp
  | none => simp

/-! ## Reading -/

/-- The fields that bytes stand for; all that is not an object counts as the empty one. -/
def fieldsIn (nesting : Nat) (bytes : Bytes) : List (Text × Json) :=
  match (Text.Utf8.decode? bytes).map fun text => Json.parse nesting (Text.unifyNewlines text) with
  | some (.ok (.obj fields)) => fields
  | _ => []

/-- The fields of the configuration file below a root, if it can be read. -/
def storedFields (w : Workspace) (root : Location) : List (Text × Json) :=
  ((w.readRaw (configPath root.render)).toOption.map (fieldsIn w.platform.jsonNesting)).getD []

/-- The bytes cannot be read as JSON for a reason that stops the run. -/
inductive Unparsable (nesting : Nat) (bytes : Bytes) : ConfigError → Prop
  | undecodable (h : Text.Utf8.decode? bytes = none) : Unparsable nesting bytes .undecodable
  | limit {text : Text} {l : Json.Limit} (ht : Text.Utf8.decode? bytes = some text)
    (h : Json.parse nesting (Text.unifyNewlines text) = .error (.limit l)) :
    Unparsable nesting bytes (.limit l)

theorem storedFields_of_readRaw {bytes : Bytes} (h : w.readRaw (configPath root.render) = .ok bytes) :
    w.storedFields root = fieldsIn w.platform.jsonNesting bytes := by
  rw [storedFields, h]
  rfl

theorem storedFields_eq_nil (h : ∀ bytes, w.readRaw (configPath root.render) ≠ .ok bytes) :
    w.storedFields root = [] := by
  rw [storedFields]
  cases hraw : w.readRaw (configPath root.render) with
  | error e => rfl
  | ok bytes => exact absurd hraw (h bytes)

/-- What is stored is within the bounds of JSON texts. -/
theorem fits_storedFields (w : Workspace) (root : Location) :
    Json.Fits (w.platform.jsonNesting + 1) (.obj (w.storedFields root)) := by
  have hempty : Json.Fits (w.platform.jsonNesting + 1) (.obj []) := .obj .nil (by simp)
  cases hraw : w.readRaw (configPath root.render) with
  | error e => rwa [storedFields_eq_nil (by simp [hraw])]
  | ok bytes =>
    rw [storedFields_of_readRaw hraw, fieldsIn]
    split
    · rename_i fields h
      obtain ⟨text, htext, hparse⟩ := Option.map_eq_some_iff.mp h
      have hencode := Text.Utf8.decode?_eq_some_iff_encode?.mp htext
      exact Json.fits_of_parse (Text.Utf8.encodable_unifyNewlines (Encodable.of_encode? hencode))
        hparse
    · exact hempty

/-- Once the file is open, its text decides. -/
theorem loadConfig_of_bytes {bytes : Bytes} {found : Location × Node}
    (hfind : w.tree.find? w.cwd (configPath root.render) = .ok (some found))
    (hraw : w.readRaw (configPath root.render) = .ok bytes) :
    (∃ warnings,
        w.loadConfig root.render = .ok (fieldsIn w.platform.jsonNesting bytes, warnings) ∧
          ∀ e, ¬Unparsable w.platform.jsonNesting bytes e) ∨
      ∃ e, w.loadConfig root.render = .error e ∧ Unparsable w.platform.jsonNesting bytes e := by
  simp only [loadConfig, hfind, hraw, fieldsIn]
  cases htext : Text.Utf8.decode? bytes with
  | none => exact Or.inr ⟨_, rfl, .undecodable htext⟩
  | some text =>
    have hgoes : (∀ l, Json.parse w.platform.jsonNesting (Text.unifyNewlines text) ≠
        .error (.limit l)) → ∀ e, ¬Unparsable w.platform.jsonNesting bytes e := by
      intro hparse e he
      cases he with
      | undecodable h => simp [htext] at h
      | limit ht h =>
        obtain rfl := Option.some.inj (htext.symm.trans ht)
        exact hparse _ h
    simp only [Option.map_some]
    cases hparse : Json.parse w.platform.jsonNesting (Text.unifyNewlines text) with
    | error e =>
      cases e with
      | malformed => exact Or.inl ⟨_, rfl, hgoes (by simp [hparse])⟩
      | limit l => exact Or.inr ⟨_, rfl, .limit htext hparse⟩
    | ok v =>
      have hlimit := hgoes (by simp [hparse])
      cases v with
      | obj fields => exact Or.inl ⟨_, rfl, hlimit⟩
      | null => exact Or.inl ⟨_, rfl, hlimit⟩
      | bool b => exact Or.inl ⟨_, rfl, hlimit⟩
      | int n => exact Or.inl ⟨_, rfl, hlimit⟩
      | float x => exact Or.inl ⟨_, rfl, hlimit⟩
      | str t => exact Or.inl ⟨_, rfl, hlimit⟩
      | arr items => exact Or.inl ⟨_, rfl, hlimit⟩

/-- Loading gives the stored fields, unless the bytes of the file stop it or its path is too
long. -/
theorem loadConfig_cases (ht : w.tree.WellFormed) (hn : ∀ name ∈ root, Path.IsName name) :
    (∃ warnings, w.loadConfig root.render = .ok (w.storedFields root, warnings) ∧
        ∀ bytes e, w.readRaw (configPath root.render) = .ok bytes →
          ¬Unparsable w.platform.jsonNesting bytes e) ∨
      (∃ bytes e, w.readRaw (configPath root.render) = .ok bytes ∧
        Unparsable w.platform.jsonNesting bytes e ∧ w.loadConfig root.render = .error e) ∨
      (configFile root).TooLong ∧ ∃ e, w.loadConfig root.render = .error (.file e) := by
  have hfind : w.tree.find? w.cwd (configPath root.render) =
      w.tree.find? [] (configFile root).render := by
    rw [configPath_render hn, FileTree.find?_eq_of_absolute (root_configFile root)]
  rcases FileTree.find?_render ht (root_configFile root) (isName_of_mem_configFile hn) with
    hfound | ⟨hfound, hlong⟩
  · rw [← hfind] at hfound
    cases hraw : w.readRaw (configPath root.render) with
    | error e =>
      refine Or.inl ?_
      rw [storedFields_eq_nil (by simp [hraw])]
      cases hnode : w.tree.node? (configFile root).names with
      | none => exact ⟨[], by simp [loadConfig, hfound, hnode], by simp⟩
      | some n =>
        exact ⟨[.unreadable (configPath root.render) (.file e)],
          by simp only [loadConfig, hfound, hnode, hraw, Option.map_some], by simp⟩
    | ok bytes =>
      obtain ⟨-, hnode, -⟩ := (readRaw_config ht hn).mp hraw
      rw [hnode] at hfound
      rw [storedFields_of_readRaw hraw]
      rcases loadConfig_of_bytes hfound hraw with ⟨warnings, hload, hgoes⟩ | ⟨e, hload, hstops⟩
      · refine Or.inl ⟨warnings, hload, fun bytes' e hbytes => ?_⟩
        obtain rfl := Except.ok.inj hbytes
        exact hgoes e
      · exact Or.inr (Or.inl ⟨bytes, e, rfl, hstops, hload⟩)
  · refine Or.inr (Or.inr ⟨hlong, ⟨.nameTooLong, some (configFile root).render⟩, ?_⟩)
    simp only [loadConfig, hfind, hfound]

theorem eq_storedFields (ht : w.tree.WellFormed) (hn : ∀ name ∈ root, Path.IsName name)
    {fields : List (Text × Json)} {warnings : List Warning}
    (h : w.loadConfig root.render = .ok (fields, warnings)) : fields = w.storedFields root := by
  rcases loadConfig_cases ht hn with ⟨ws, hload, -⟩ | ⟨_, _, _, _, hload⟩ | ⟨-, _, hload⟩
  · exact (Prod.mk.inj (Except.ok.inj (h.symm.trans hload))).1
  · simp [h] at hload
  · simp [h] at hload

/-! ## Writing -/

theorem isName_of_mem_directory (h : ∀ name ∈ root, Path.IsName name) :
    ∀ name ∈ root ++ [".sharpkit".text], Path.IsName name := by
  intro name hname
  rcases List.mem_append.mp hname with hname | hname
  · exact h name hname
  · rw [List.mem_singleton.mp hname]
    decide

theorem not_tooLong_of_node? {t : FileTree} (ht : t.WellFormed) {p : Path}
    (ho : FileTree.objection? p.render = none) (hnode : t.node? p.names ≠ none) : ¬p.TooLong := by
  rintro (hsize | ⟨name, hname, hsize⟩)
  · rw [FileTree.objection?, FileTree.refusal?_of_objection? ho] at ho
    dsimp only at ho
    split_ifs at ho
  · exact Nat.not_lt.mpr (ht.isEntryName hnode name hname).size hsize

theorem storedFields_of_tree (ht : w.tree.WellFormed) (hn : ∀ name ∈ root, Path.IsName name)
    {tree : FileTree} (ht' : tree.WellFormed)
    (hnode : tree.node? (configFile root).names = w.tree.node? (configFile root).names) :
    { w with tree }.storedFields root = w.storedFields root := by
  have hraw : ∀ bytes, { w with tree }.readRaw (configPath root.render) = .ok bytes ↔
      w.readRaw (configPath root.render) = .ok bytes := by
    intro bytes
    rw [readRaw_config ht hn, readRaw_config (w := { w with tree }) ht' hn, hnode]
  cases h : w.readRaw (configPath root.render) with
  | ok bytes => rw [storedFields_of_readRaw h, storedFields_of_readRaw ((hraw bytes).mpr h)]
  | error e =>
    have hnone : ∀ bytes, w.readRaw (configPath root.render) ≠ .ok bytes := by simp [h]
    rw [storedFields_eq_nil hnone, storedFields_eq_nil fun bytes hb => hnone bytes ((hraw bytes).mp hb)]

/-- A successful write leaves a file with the merged fields. -/
theorem node?_of_writeConfig (ht : w.tree.WellFormed) (hn : ∀ name ∈ root, Path.IsName name)
    {values : List (Text × Json)} {tree : FileTree}
    (h : w.writeConfig root.render values = (.ok (), tree)) :
    tree.WellFormed ∧ ¬(configFile root).TooLong ∧
      tree.node? (configFile root).names = some (.file ((Text.Utf8.encode?
        (Json.render (.obj (mergeFields (w.storedFields root) values)) ++ "\n")).getD [])) := by
  unfold writeConfig at h
  split at h
  · cases h
  · rename_i made hmade
    split at h
    · cases h
    · rename_i fields warnings hload
      dsimp only at h
      split at h
      · cases h
      · rename_i stored hstore
        obtain rfl : stored = tree := (Prod.mk.inj h).2
        have hwell := ht.makeDirectory hmade
        have hwell' := hwell.store hstore
        obtain ⟨ho, hnode⟩ := FileTree.node?_store hstore
        rw [configPath_render hn] at ho hnode
        rw [Path.resolve_render (root_configFile root) (isName_of_mem_configFile hn)] at hnode
        have hkeep : made.node? (configFile root).names = w.tree.node? (configFile root).names := by
          refine FileTree.node?_makeDirectory hmade ?_
          rw [configDirectory_render hn, Path.resolve_render (by simp) (isName_of_mem_directory hn)]
          exact fun he => by simpa [configFile, Path.join] using congrArg List.length he
        rw [eq_storedFields (w := { w with tree := made }) hwell hn hload,
          storedFields_of_tree ht hn hwell hkeep] at hnode
        exact ⟨hwell', not_tooLong_of_node? hwell' ho (by rw [hnode]; simp), hnode⟩

/-! ## Roots -/

theorem subset_of_repositoryAbove {l m : Location} (h : w.repositoryAbove l = .ok (some m)) :
    m ⊆ l := by
  induction l using List.reverseRecOn with
  | nil =>
    rw [repositoryAbove, dif_pos rfl] at h
    cases h
  | append_singleton l name ih =>
    rw [repositoryAbove, dif_neg (by simp)] at h
    split at h
    · cases h
    · obtain rfl := Option.some.inj (Except.ok.inj h)
      exact List.Subset.refl _
    · rw [Location.parent, List.dropLast_concat] at h
      exact List.Subset.trans (ih h) (List.subset_append_left _ _)

theorem subset_of_directoryOf {l m : Location} (h : w.directoryOf l = .ok m) : m ⊆ l := by
  unfold directoryOf at h
  cases hfind : w.tree.find? [] l.render with
  | error e => simp [hfind, Except.map] at h
  | ok found =>
    rw [hfind] at h
    obtain rfl := Except.ok.inj h
    dsimp only
    split
    · exact List.dropLast_subset l
    · exact List.Subset.refl _

/-- The root of a project has a path in order. -/
theorem isName_of_projectRoot (hc : ∀ name ∈ w.cwd, Path.IsName name) {start : Text}
    (h : w.projectRoot start = .ok root) : ∀ name ∈ root, Path.IsName name := by
  have hstart := Path.isName_of_mem_resolve hc start
  unfold projectRoot at h
  split at h
  · cases h
  split at h
  · cases h
  · rename_i directory hd
    have hdirectory := subset_of_directoryOf hd
    cases habove : w.repositoryAbove directory with
    | error e => simp [habove, Except.map] at h
    | ok found =>
      rw [habove] at h
      obtain rfl := Except.ok.inj h
      cases found with
      | none => exact fun name hname => hstart name (hdirectory hname)
      | some m =>
        exact fun name hname => hstart name (hdirectory (subset_of_repositoryAbove habove hname))

end Workspace

end CSharpActions
