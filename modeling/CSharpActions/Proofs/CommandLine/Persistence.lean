import CSharpActions.Proofs.CommandLine.Agreement
import CSharpActions.Proofs.Json.Document
import CSharpActions.Proofs.Settings.Stored
import CSharpActions.Proofs.Workspace.Loading
import Mathlib

/-!
# Settings that are kept

Whatever a configuration file holds, floating point numbers aside, and whatever settings are stored
and removed one after the other: the file that is left is read as the fields of the first one with
these changes. A stored setting takes effect, and no other setting changes, except that a prefix
which is stored as an array or an object shows the fields of its objects in order.
-/
namespace CSharpActions

open Text.Utf8 (Bytes Encodable)

namespace CommandLine

/-- The name that a request stores or removes. -/
def ConfigRequest.name? : ConfigRequest → Option Text
  | .view => none
  | .set name _ => some name
  | .unset name => some name

/-- The stored fields after a request: a setting is stored as its converted value. -/
def ConfigRequest.applyTo (fields : List (Text × Json)) : ConfigRequest → List (Text × Json)
  | .view => fields
  | .set name value =>
    match Setting.coerceNamed name (.str value) with
    | .ok v => Json.setField name v.toJson fields
    | .error _ => fields
  | .unset name => Json.removeField name fields

/-- A request to change a setting of the project succeeds, and leaves `tree`. -/
def Accepts (w : Workspace) (root : Location) (request : ConfigRequest) (tree : FileTree) : Prop :=
  request ≠ .view ∧ ∃ output start code, w.projectRoot start = .ok root ∧
    (runConfig w output start request).result = .ok code ∧
      (runConfig w output start request).tree = tree

/-- Requests to change settings of the project are accepted one after the other. -/
inductive Changes (w : Workspace) (root : Location) :
    FileTree → List ConfigRequest → FileTree → Prop
  | none (tree : FileTree) : Changes w root tree [] tree
  | more {tree next last : FileTree} {request : ConfigRequest} {requests : List ConfigRequest}
    (h : Accepts { w with tree } root request next) (hs : Changes w root next requests last) :
    Changes w root tree (request :: requests) last

variable {w : Workspace} {root : Location} {request : ConfigRequest}
  {requests : List ConfigRequest} {tree : FileTree} {a b : List (Text × Json)}

/-! ## Requests -/

theorem ConfigRequest.sameFields_applyTo (h : Json.SameFields a b) (request : ConfigRequest) :
    Json.SameFields (request.applyTo a) (request.applyTo b) := by
  cases request with
  | view => exact h
  | set name value =>
    simp only [applyTo]
    split
    · exact h.setField _ _
    · exact h
  | unset name => exact h.removeField name

theorem ConfigRequest.lookup_applyTo {key : Text} (h : request.name? ≠ some key)
    (fields : List (Text × Json)) : (request.applyTo fields).lookup key = fields.lookup key := by
  cases request with
  | view => rfl
  | set name value =>
    simp only [applyTo]
    split
    · rw [Json.lookup_setField, if_neg fun hk => h (congrArg some hk.symm)]
    · rfl
  | unset name =>
    rw [applyTo, Json.lookup_removeField, if_neg fun hk => h (congrArg some hk.symm)]

theorem ConfigRequest.lookup_foldl {key : Text} (h : ∀ r ∈ requests, r.name? ≠ some key)
    (fields : List (Text × Json)) : (requests.foldl applyTo fields).lookup key = fields.lookup key := by
  induction requests generalizing fields with
  | nil => rfl
  | cons request requests ih =>
    obtain ⟨hr, hrs⟩ := List.forall_mem_cons.mp h
    exact (ih hrs _).trans (lookup_applyTo hr fields)

/-- The given text keeps no halves of a pair apart, as no decoded command line does. -/
def ConfigRequest.Joined (request : ConfigRequest) : Prop :=
  ∀ name value, request = .set name value → value.Joined

theorem mem_removeField {key : Text} {fields : List (Text × Json)} {f : Text × Json}
    (h : f ∈ Json.removeField key fields) : f ∈ fields := List.mem_of_mem_filter h

theorem exists_of_coerceNamed {name : Text} {raw : Json} {v : Setting.Value}
    (h : Setting.coerceNamed name raw = .ok v) :
    ∃ s : Setting, name = s.name ∧ s.coerce raw = .ok v := by
  rw [Setting.coerceNamed] at h
  split at h
  · rename_i s hs
    exact ⟨s, Setting.eq_name_of_ofName? hs, h⟩
  · cases h

/-- The fields after a request are within the bounds of JSON texts. -/
theorem ConfigRequest.fits_applyTo (hj : request.Joined) {fields : List (Text × Json)}
    {depth : Nat} (h : Json.Fits (depth + 1) (.obj fields)) :
    Json.Fits (depth + 1) (.obj (request.applyTo fields)) := by
  cases request with
  | view => exact h
  | set name value =>
    simp only [applyTo]
    split
    · rename_i v hv
      obtain ⟨s, rfl, hcoerce⟩ := exists_of_coerceNamed hv
      have hname : s.name.Joined := by cases s <;> decide
      cases h with
      | obj hn hfields =>
        refine .obj (hn.setField hname) fun f hf => ?_
        rcases Json.mem_setField hf with rfl | hf
        · exact Setting.fits_toJson (hj _ value rfl) hcoerce
        · exact hfields f hf
    · exact h
  | unset name =>
    cases h with
    | obj hn hfields =>
      refine .obj ⟨?_, fun f hf => hn.joined f (mem_removeField hf)⟩
        fun f hf => hfields f (mem_removeField hf)
      exact (List.filter_sublist.map Prod.fst).nodup hn.nodup

theorem ConfigRequest.floatFree_applyTo (request : ConfigRequest) {fields : List (Text × Json)}
    (h : Json.FloatFree (.obj fields)) : Json.FloatFree (.obj (request.applyTo fields)) := by
  cases h with
  | obj hfields =>
    cases request with
    | view => exact .obj hfields
    | set name value =>
      simp only [applyTo]
      split
      · rename_i v hv
        refine .obj fun f hf => ?_
        rcases Json.mem_setField hf with rfl | hf
        · exact Setting.floatFree_toJson v
        · exact hfields f hf
      · exact .obj hfields
    | unset name => exact .obj fun f hf => hfields f (mem_removeField hf)

/-! ## One change -/

theorem writeConfig_of_writeAndPrint {values : List (Text × Json)} {text : Text} {code : Int}
    (h : (writeAndPrint w root.render values text).result = .ok code) :
    w.writeConfig root.render values =
      (.ok (), (writeAndPrint w root.render values text).tree) := by
  unfold writeAndPrint at h ⊢
  cases hw : w.writeConfig root.render values with
  | mk result tree =>
    rw [hw] at h
    cases result with
    | error e => cases h
    | ok u => rfl

theorem mergeFields_toJson (name : Text) (v : Setting.Value) (fields : List (Text × Json)) :
    Workspace.mergeFields fields [(name, v.toJson)] = Json.setField name v.toJson fields := by
  cases v <;> rfl

/-- An accepted change writes the fields after the request. -/
theorem exists_of_accepts (h : Accepts w root request tree) :
    ∃ values, w.writeConfig root.render values = (.ok (), tree) ∧
      ∀ fields, Workspace.mergeFields fields values = request.applyTo fields := by
  obtain ⟨hview, output, start, code, hroot, hresult, rfl⟩ := h
  simp only [runConfig, hroot] at hresult ⊢
  cases request with
  | view => exact absurd rfl hview
  | set name value =>
    simp only [setConfig] at hresult ⊢
    cases hv : Setting.coerceNamed name (.str value) with
    | error e =>
      rw [hv] at hresult
      cases hresult
    | ok v =>
      simp only [hv] at hresult ⊢
      refine ⟨_, writeConfig_of_writeAndPrint hresult, fun fields => ?_⟩
      rw [mergeFields_toJson, ConfigRequest.applyTo, hv]
  | unset name =>
    simp only [unsetConfig] at hresult ⊢
    split at hresult
    · cases hresult
    · rename_i hknown
      rw [if_neg hknown]
      exact ⟨_, writeConfig_of_writeAndPrint hresult, fun fields => rfl⟩

/-- What was written is read back, with its fields in order. -/
theorem storedFields_of_writeConfig {values : List (Text × Json)} (ht : w.tree.WellFormed)
    (hn : ∀ name ∈ root, Path.IsName name)
    (hf : w.faults.readText (Workspace.configPath root.render) = none)
    (hfits : Json.Fits (w.platform.jsonNesting + 1)
      (.obj (Workspace.mergeFields (w.storedFields root) values)))
    (hfree : Json.FloatFree (.obj (Workspace.mergeFields (w.storedFields root) values)))
    (h : w.writeConfig root.render values = (.ok (), tree)) :
    tree.WellFormed ∧ Json.obj ({ w with tree }.storedFields root) =
        (Json.obj (Workspace.mergeFields (w.storedFields root) values)).sorted ∧
      ∃ warnings, { w with tree }.loadConfig root.render =
        .ok ({ w with tree }.storedFields root, warnings) := by
  obtain ⟨hwell, hshort, hnode⟩ := Workspace.node?_of_writeConfig ht hn h
  generalize Workspace.mergeFields (w.storedFields root) values = fields at hfits hfree hnode ⊢
  have hplain : Text.Plain (Json.render (.obj fields) ++ "\n") :=
    Text.plain_append.mpr ⟨Json.plain_render _, by decide⟩
  obtain ⟨bytes, hbytes⟩ := hplain.encodable.exists_bytes
  have hreturn : CodePoint.char '\r' ∉ Json.render (.obj fields) ++ "\n" :=
    fun hc => absurd (hplain _ hc) (by decide)
  rw [hbytes, Option.getD_some] at hnode
  have hraw : { w with tree }.readRaw (Workspace.configPath root.render) = .ok bytes :=
    (Workspace.readRaw_config (w := { w with tree }) hwell hn).mpr ⟨hf, hnode, hshort⟩
  have hdecode := Text.Utf8.decode?_eq_some_iff_encode?.mpr hbytes
  have hparse : Json.parse w.platform.jsonNesting
      (Text.unifyNewlines (Json.render (.obj fields) ++ "\n")) = .ok (Json.obj fields).sorted := by
    rw [Text.unifyNewlines_eq_self hreturn]
    exact Json.parse_render hfits hfree
  refine ⟨hwell, ?_, ?_⟩
  · rw [Workspace.storedFields_of_readRaw hraw, Workspace.fieldsIn, hdecode, Option.map_some, hparse,
      Json.sorted_obj]
  · rcases Workspace.loadConfig_cases (w := { w with tree }) hwell hn with ⟨warnings, hload, -⟩ |
      ⟨bytes', e, hraw', hbad, -⟩ | ⟨hlong, -⟩
    · exact ⟨warnings, hload⟩
    · obtain rfl := Except.ok.inj (hraw.symm.trans hraw')
      cases hbad with
      | undecodable hnone => simp [hdecode] at hnone
      | limit htext hlimit =>
        obtain rfl := Option.some.inj (hdecode.symm.trans htext)
        simp [hparse] at hlimit
    · exact absurd hlong hshort

/-! ## A run of changes -/

/-- What a run of changes leaves: a tree that can be changed again, and in it the fields of the
beginning with the changes. -/
structure Kept (w : Workspace) (root : Location) (fields : List (Text × Json)) (tree : FileTree) :
    Prop where
  wellFormed : tree.WellFormed
  floatFree : Json.FloatFree (.obj ({ w with tree }.storedFields root))
  loads : ∃ warnings, { w with tree }.loadConfig root.render =
    .ok ({ w with tree }.storedFields root, warnings)
  same : Json.SameFields ({ w with tree }.storedFields root) fields

/-- One accepted change. -/
theorem Kept.step {fields : List (Text × Json)} {tree next : FileTree}
    (hk : Kept w root fields tree) (hn : ∀ name ∈ root, Path.IsName name)
    (hf : w.faults.readText (Workspace.configPath root.render) = none) (hj : request.Joined)
    (h : Accepts { w with tree } root request next) :
    Kept w root (request.applyTo fields) next ∧
      (Json.obj ({ w with tree := next }.storedFields root)).sorted =
        .obj ({ w with tree := next }.storedFields root) := by
  obtain ⟨values, hwrite, hvalues⟩ := exists_of_accepts h
  have hfits := ConfigRequest.fits_applyTo hj ({ w with tree }.fits_storedFields root)
  have hfree := ConfigRequest.floatFree_applyTo request hk.floatFree
  rw [← hvalues] at hfits hfree
  obtain ⟨hwell, hstored, hloads⟩ := storedFields_of_writeConfig (w := { w with tree }) hk.wellFormed
    hn hf hfits hfree hwrite
  have hnames : ((request.applyTo ({ w with tree }.storedFields root)).map Prod.fst).Nodup := by
    rw [hvalues] at hfits
    cases hfits with
    | obj hn _ => exact hn.nodup
  rw [hvalues] at hstored hfree
  refine ⟨⟨hwell, hstored ▸ hfree.sorted, hloads, ?_⟩, by rw [hstored, Json.sorted_sorted]⟩
  exact (Json.sameFields_of_eq_sorted hnames hstored).trans
    (ConfigRequest.sameFields_applyTo hk.same request)

/-- A run of accepted changes. -/
theorem Kept.run {fields : List (Text × Json)} {tree last : FileTree} (hk : Kept w root fields tree)
    (hn : ∀ name ∈ root, Path.IsName name)
    (hf : w.faults.readText (Workspace.configPath root.render) = none)
    (hj : ∀ r ∈ requests, r.Joined) (h : Changes w root tree requests last) :
    Kept w root (requests.foldl ConfigRequest.applyTo fields) last := by
  induction h generalizing fields with
  | none tree => exact hk
  | more h _ ih =>
    obtain ⟨hr, hrs⟩ := List.forall_mem_cons.mp hj
    exact ih (hk.step hn hf hr h).1 hrs

/-- After at least one change the fields of every object are in order. -/
theorem sorted_of_changes {fields : List (Text × Json)} {tree last : FileTree}
    (hk : Kept w root fields tree) (hn : ∀ name ∈ root, Path.IsName name)
    (hf : w.faults.readText (Workspace.configPath root.render) = none)
    (hj : ∀ r ∈ requests, r.Joined) (h : Changes w root tree requests last) : last = tree ∨
      (Json.obj ({ w with tree := last }.storedFields root)).sorted =
        .obj ({ w with tree := last }.storedFields root) := by
  induction h generalizing fields with
  | none tree => exact Or.inl rfl
  | more h _ ih =>
    obtain ⟨hr, hrs⟩ := List.forall_mem_cons.mp hj
    obtain ⟨hnext, hsorted⟩ := hk.step hn hf hr h
    rcases ih hnext hrs with rfl | hlast
    · exact Or.inr hsorted
    · exact Or.inr hlast

/-! ## Effective settings -/

variable {fields : List (Text × Json)} {overrides : List (Text × Json)} {s : Setting}

theorem effective_eq (w : Workspace) (root : Location) (overrides : List (Text × Json))
    (s : Setting) : w.effective root overrides s =
      ((Settings.overrideLayer overrides).value? s).getD
        (((Settings.environmentLayer w.env).value? s).getD
          ((((w.storedFields root).lookup s.name).bind s.valid?).getD (({} : Settings).get s))) := rfl

/-- A stored value takes effect where no higher layer has one. -/
theorem effective_of_stored {raw : Json} {v : Setting.Value}
    (henv : (Settings.environmentLayer w.env).value? s = none)
    (hover : (Settings.overrideLayer overrides).value? s = none)
    (hraw : (w.storedFields root).lookup s.name = some raw) (hv : s.valid? raw = some v) :
    w.effective root overrides s = v := by
  rw [effective_eq, henv, hover, hraw, Option.bind_some, hv]
  rfl

/-- Only the value of the setting in the file matters of the file. -/
theorem effective_congr
    (h : ((({ w with tree }.storedFields root).lookup s.name).bind s.valid?) =
      ((w.storedFields root).lookup s.name).bind s.valid?) :
    { w with tree }.effective root overrides s = w.effective root overrides s := by
  rw [effective_eq, effective_eq, h]

/-- After a change the value in the file has the fields of its objects in order. -/
theorem Kept.lookup_sorted {raw : Json} (hk : Kept w root fields tree)
    (hsorted : (Json.obj ({ w with tree }.storedFields root)).sorted =
      .obj ({ w with tree }.storedFields root)) (h : fields.lookup s.name = some raw) :
    ({ w with tree }.storedFields root).lookup s.name = some raw.sorted := by
  have hn : (({ w with tree }.storedFields root).map Prod.fst).Nodup := by
    cases { w with tree }.fits_storedFields root with
    | obj hn _ => exact hn.nodup
  have hsame := hk.same s.name
  rw [← Json.lookup_of_eq_sorted hn hsorted.symm, h] at hsame
  exact hsame

/-- A prefix that is stored shows the order of fields, unless a higher layer has a value. -/
theorem effective_privatePrefix {raw : Json}
    (hraw : (w.storedFields root).lookup Setting.privatePrefix.name = some raw)
    (hraw' : ({ w with tree }.storedFields root).lookup Setting.privatePrefix.name =
      some raw.sorted) :
    { w with tree }.effective root overrides .privatePrefix = w.effective root overrides .privatePrefix ∨
      w.effective root overrides .privatePrefix = .text (Setting.coerceText raw) ∧
        { w with tree }.effective root overrides .privatePrefix =
          .text (Setting.coerceText raw.sorted) := by
  rw [effective_eq, effective_eq, hraw, hraw']
  cases (Settings.overrideLayer overrides).value? .privatePrefix with
  | some v => exact Or.inl rfl
  | none =>
    cases (Settings.environmentLayer w.env).value? .privatePrefix with
    | some v => exact Or.inl rfl
    | none => exact Or.inr ⟨rfl, rfl⟩

theorem lookup_last_set {earlier later : List ConfigRequest} {value : Text} {v : Setting.Value}
    (hv : s.coerce (.str value) = .ok v) (hlater : ∀ r ∈ later, r.name? ≠ some s.name)
    (fields : List (Text × Json)) :
    ((earlier ++ .set s.name value :: later).foldl ConfigRequest.applyTo fields).lookup s.name =
      some v.toJson := by
  rw [List.foldl_append, List.foldl_cons, ConfigRequest.lookup_foldl hlater, ConfigRequest.applyTo,
    Setting.coerceNamed, Setting.ofName?_name]
  simp only [hv]
  rw [Json.lookup_setField, if_pos rfl]

/-- A setting that was stored last is the one that is found in the file. -/
theorem Kept.lookup_eq {v : Setting.Value} (hk : Kept w root fields tree)
    (h : fields.lookup s.name = some v.toJson) :
    ({ w with tree }.storedFields root).lookup s.name = some v.toJson := by
  have hsame := hk.same s.name
  rw [h, Option.map_some] at hsame
  obtain ⟨raw, hraw, heq⟩ := Option.map_eq_some_iff.mp hsame
  rw [hraw, Setting.eq_toJson_of_sorted heq]

theorem Kept.value?_eq (hk : Kept w root fields tree)
    (h : fields.lookup s.name = (w.storedFields root).lookup s.name) (hs : s ≠ .privatePrefix) :
    (({ w with tree }.storedFields root).lookup s.name).bind s.valid? =
      ((w.storedFields root).lookup s.name).bind s.valid? := by
  have hsame := hk.same s.name
  rw [h] at hsame
  have hsorted : ∀ o : Option Json, o.bind s.valid? = (o.map Json.sorted).bind s.valid? := by
    intro o
    cases o with
    | none => rfl
    | some raw => exact (Setting.valid?_sorted raw hs).symm
  rw [hsorted, hsame, ← hsorted]

/-- A setting that was stored last takes effect unless a higher layer has a value. -/
theorem Kept.effective_last_set {earlier later : List ConfigRequest} {value : Text}
    {v : Setting.Value} (hk : Kept w root
      ((earlier ++ .set s.name value :: later).foldl ConfigRequest.applyTo fields) tree)
    (hv : s.coerce (.str value) = .ok v) (hlater : ∀ r ∈ later, r.name? ≠ some s.name)
    (henv : w.env.lookup s.environmentName = none)
    (hover : (Settings.overrideLayer overrides).values.lookup s.name = none) :
    { w with tree }.effective root overrides s = v := by
  have hlookup := hk.lookup_eq (lookup_last_set hv hlater _)
  have henv' : (Settings.environmentLayer w.env).value? s = none := by
    rw [Settings.Layer.value?, Settings.lookup_environmentLayer, henv]
    rfl
  have hover' : (Settings.overrideLayer overrides).value? s = none := by
    rw [Settings.Layer.value?, hover]
    rfl
  exact effective_of_stored henv' hover' hlookup (Setting.valid?_toJson hv)

/-- A setting that was not changed keeps its effect, a stored prefix up to the order of fields. -/
theorem Kept.effective_unchanged (hk : Kept w root fields tree)
    (hsame : fields.lookup s.name = (w.storedFields root).lookup s.name)
    (hsorted : tree = w.tree ∨ (Json.obj ({ w with tree }.storedFields root)).sorted =
      .obj ({ w with tree }.storedFields root)) :
    { w with tree }.effective root overrides s = w.effective root overrides s ∨
      s = .privatePrefix ∧ ∃ raw, (w.storedFields root).lookup s.name = some raw ∧
        w.effective root overrides s = .text (Setting.coerceText raw) ∧
        { w with tree }.effective root overrides s = .text (Setting.coerceText raw.sorted) := by
  by_cases hs : s = .privatePrefix
  swap
  · exact Or.inl (effective_congr (hk.value?_eq hsame hs))
  subst hs
  rcases hsorted with rfl | hsorted
  · exact Or.inl rfl
  cases hraw : (w.storedFields root).lookup Setting.privatePrefix.name with
  | none =>
    have hnone : ({ w with tree }.storedFields root).lookup Setting.privatePrefix.name = none := by
      have hfile := hk.same Setting.privatePrefix.name
      rw [hsame, hraw] at hfile
      exact Option.map_eq_none_iff.mp hfile
    exact Or.inl (effective_congr (by rw [hnone, hraw]))
  | some raw =>
    have hraw' := hk.lookup_sorted hsorted (hsame.trans hraw)
    exact (effective_privatePrefix hraw hraw').imp id fun h => ⟨rfl, raw, rfl, h⟩

/-- For every project, every run of accepted changes and every setting: the file that is left is read
as the fields of the first file with the changes in turn; a setting that was stored last takes
effect unless a higher layer has a value; and a setting that was not changed keeps its effect, except
that a stored prefix shows the fields of its objects in order. -/
theorem changes_are_kept (w : Workspace) (root : Location) (requests : List ConfigRequest)
    (tree : FileTree) (ht : w.tree.WellFormed) (hc : ∀ name ∈ w.cwd, Path.IsName name)
    (hf : w.faults.readText (Workspace.configPath root.render) = none) {project : Text}
    (hp : w.projectRoot project = .ok root)
    {fields : List (Text × Json)} {warnings : List Workspace.Warning}
    (hload : w.loadConfig root.render = .ok (fields, warnings))
    (hfree : Json.FloatFree (.obj fields)) (hj : ∀ r ∈ requests, r.Joined)
    (hr : Changes w root w.tree requests tree) :
    (∃ fields' warnings', { w with tree }.loadConfig root.render = .ok (fields', warnings') ∧
      Json.SameFields fields' (requests.foldl ConfigRequest.applyTo fields)) ∧
    ∀ start overrides before after ignored ignored', (overrides.map Prod.fst).Nodup →
      w.projectRoot start = .ok root → { w with tree }.projectRoot start = .ok root →
      w.loadSettings start overrides = .ok (before, ignored) →
      { w with tree }.loadSettings start overrides = .ok (after, ignored') →
      (∀ s value v earlier later, requests = earlier ++ .set s.name value :: later →
        (∀ r ∈ later, r.name? ≠ some s.name) → s.coerce (.str value) = .ok v →
        w.env.lookup s.environmentName = none →
        (Settings.overrideLayer overrides).values.lookup s.name = none → after.get s = v) ∧
      ∀ s, (∀ r ∈ requests, r.name? ≠ some s.name) →
        after.get s = before.get s ∨
          s = .privatePrefix ∧ ∃ raw, fields.lookup s.name = some raw ∧
            before.get s = .text (Setting.coerceText raw) ∧
            after.get s = .text (Setting.coerceText raw.sorted) := by
  have hn := Workspace.isName_of_projectRoot hc hp
  obtain rfl := Workspace.eq_storedFields ht hn hload
  have hstart : Kept w root (w.storedFields root) w.tree :=
    ⟨ht, hfree, ⟨warnings, hload⟩, Json.SameFields.refl _⟩
  have hkept := hstart.run hn hf hj hr
  have hsorted := sorted_of_changes hstart hn hf hj hr
  obtain ⟨warnings', hload'⟩ := hkept.loads
  refine ⟨⟨_, warnings', hload', hkept.same⟩, ?_⟩
  intro start overrides before after ignored ignored' ho hroot hroot' hbefore hafter
  have hget := Workspace.get_of_loadSettings ht hc hroot ho hbefore
  have hget' := Workspace.get_of_loadSettings (w := { w with tree }) hkept.wellFormed hc hroot' ho
    hafter
  constructor
  · rintro s value v earlier later rfl hlater hv henv hover
    rw [hget']
    exact hkept.effective_last_set hv hlater henv hover
  · intro s hs
    rw [hget, hget']
    exact hkept.effective_unchanged (ConfigRequest.lookup_foldl hs _) hsorted

/-- A valid value is accepted if it can be written. -/
theorem accepts_of_set (start : Text) {name value : Text} {v : Setting.Value}
    (hroot : w.projectRoot start = .ok root) (hv : Setting.coerceNamed name (.str value) = .ok v)
    (hwrite : w.writeConfig root.render [(name, v.toJson)] = (.ok (), tree)) :
    Accepts w root (.set name value) tree := by
  refine ⟨nofun, .plain, start, Report.ExitCode.success, hroot, ?_, ?_⟩
  · simp only [runConfig, hroot, setConfig, hv, writeAndPrint, hwrite]
  · simp only [runConfig, hroot, setConfig, hv, writeAndPrint, hwrite]

/-- A setting may be removed if the file can be written. -/
theorem accepts_of_unset (start : Text) {name : Text} (hroot : w.projectRoot start = .ok root)
    (hname : (Setting.ofName? name).isNone = false)
    (hwrite : w.writeConfig root.render [(name, .null)] = (.ok (), tree)) :
    Accepts w root (.unset name) tree := by
  refine ⟨nofun, .plain, start, Report.ExitCode.success, hroot, ?_, ?_⟩
  · simp only [runConfig, hroot, unsetConfig, hname, Bool.false_eq_true, if_false, writeAndPrint,
      hwrite]
  · simp only [runConfig, hroot, unsetConfig, hname, Bool.false_eq_true, if_false, writeAndPrint,
      hwrite]

/-- A repository whose configuration file has the given content. -/
def configured (content : Text) : Workspace :=
  { tree := ⟨[(["p", ".sharpkit", "config.json"], .file ((Text.Utf8.encode? content).getD [])),
      (["p", ".sharpkit"], .directory), (["p", ".git"], .directory), (["p"], .directory)]⟩,
    cwd := ["p"] }

theorem accepts_set_configured : Accepts
    (configured "\x7b\"reformat_after_change\": false, \"a\": [\x7b\x7d]\x7d") ["p"]
    (.set "tab_size" " 3")
    (configured ("\x7b\n  \"a\": [\n    \x7b\x7d\n  ],\n" ++
      "  \"reformat_after_change\": false,\n  \"tab_size\": 3\n\x7d\n")).tree := by
  refine accepts_of_set "." (v := .int 3) ?_ rfl ?_
  · decide +kernel
  · cbv

theorem accepts_unset_configured : Accepts
    (configured ("\x7b\n  \"a\": [\n    \x7b\x7d\n  ],\n" ++
      "  \"reformat_after_change\": false,\n  \"tab_size\": 3\n\x7d\n")) ["p"]
    (.unset "reformat_after_change")
    (configured "\x7b\n  \"a\": [\n    \x7b\x7d\n  ],\n  \"tab_size\": 3\n\x7d\n").tree := by
  refine accepts_of_unset "." ?_ rfl ?_
  · decide +kernel
  · cbv

theorem changes_configured : Changes
    (configured "\x7b\"reformat_after_change\": false, \"a\": [\x7b\x7d]\x7d") ["p"]
    (configured "\x7b\"reformat_after_change\": false, \"a\": [\x7b\x7d]\x7d").tree
    [.set "tab_size" " 3", .unset "reformat_after_change"]
    (configured "\x7b\n  \"a\": [\n    \x7b\x7d\n  ],\n  \"tab_size\": 3\n\x7d\n").tree :=
  .more accepts_set_configured (.more accepts_unset_configured (.none _))

/-- A tab size is stored and another setting removed beside a field that is no setting. -/
theorem changes_are_kept_beside_other_field :
    ∃ (first last : Text) (requests : List ConfigRequest),
      first = "\x7b\"reformat_after_change\": false, \"a\": [\x7b\x7d]\x7d" ∧
      last = "\x7b\n  \"a\": [\n    \x7b\x7d\n  ],\n  \"tab_size\": 3\n\x7d\n" ∧
      requests = [.set "tab_size" " 3", .unset "reformat_after_change"] ∧
      (configured first).tree.WellFormed ∧ (∀ name ∈ (configured first).cwd, Path.IsName name) ∧
      (configured first).faults.readText (Workspace.configPath (Location.render ["p"])) = none ∧
      (configured first).projectRoot "." = .ok ["p"] ∧
      (∃ fields, (configured first).loadConfig (Location.render ["p"]) = .ok (fields, []) ∧
        Json.FloatFree (.obj fields)) ∧
      (∀ r ∈ requests, r.Joined) ∧
      Changes (configured first) ["p"] (configured first).tree requests (configured last).tree ∧
      (∃ fields warnings,
        (configured last).loadConfig (Location.render ["p"]) = .ok (fields, warnings) ∧
          Json.SameFields fields [("a".text, .arr [.obj []]), ("tab_size", .int 3)]) ∧
      ∃ before after : Settings, (configured first).loadSettings "." [] = .ok (before, []) ∧
        (configured last).loadSettings "." [] = .ok (after, []) ∧
        after.get .tabSize = .int 3 ∧ after.get .useThis = before.get .useThis := by
  refine ⟨_, _, _, rfl, rfl, rfl, ?_⟩
  have hr := changes_configured
  generalize hfirst : ("\x7b\"reformat_after_change\": false, \"a\": [\x7b\x7d]\x7d" : Text) = first
    at hr ⊢
  generalize hlast : ("\x7b\n  \"a\": [\n    \x7b\x7d\n  ],\n  \"tab_size\": 3\n\x7d\n" : Text) =
    last at hr ⊢
  have ht : (configured first).tree.WellFormed := by
    rw [← hfirst]
    decide +kernel
  have hc : ∀ name ∈ (configured first).cwd, Path.IsName name := by
    change ∀ name ∈ ["p".text], Path.IsName name
    decide
  have hp : (configured first).projectRoot "." = .ok ["p"] := by
    rw [← hfirst]
    decide +kernel
  have hp' : (configured last).projectRoot "." = .ok ["p"] := by
    rw [← hlast]
    decide +kernel
  have hload : (configured first).loadConfig (Location.render ["p"]) =
      .ok ([("reformat_after_change".text, .bool false), ("a", .arr [.obj []])], []) := by
    rw [← hfirst]
    cbv
  have hfree : Json.FloatFree
      (.obj [("reformat_after_change".text, .bool false), ("a", .arr [.obj []])]) := by
    refine .obj ?_
    simp only [List.forall_mem_cons]
    refine ⟨.bool false, .arr ?_, by simp⟩
    simp only [List.forall_mem_cons]
    exact ⟨.obj (by simp), by simp⟩
  have hj : ∀ r ∈ [ConfigRequest.set "tab_size" " 3", .unset "reformat_after_change"],
      r.Joined := by
    simp only [List.forall_mem_cons]
    refine ⟨?_, ?_, by simp⟩
    · intro name value heq
      rw [← (ConfigRequest.set.inj heq).2]
      decide
    · intro name value heq
      cases heq
  have hbefore : (configured first).loadSettings "." [] = .ok ({ reformat := false }, []) := by
    rw [← hfirst]
    cbv
  have hafter : (configured last).loadSettings "." [] = .ok ({ tabSize := 3 }, []) := by
    rw [← hlast]
    cbv
  obtain ⟨hfields, hsettings⟩ := changes_are_kept (configured first) ["p"] _ _ ht hc rfl hp hload
    hfree hj hr
  obtain ⟨hnamed, hother⟩ := hsettings "." [] _ _ _ _ List.nodup_nil hp hp' hbefore hafter
  refine ⟨ht, hc, rfl, hp, ⟨_, hload, hfree⟩, hj, hr, hfields, _, _, hbefore, hafter, ?_, ?_⟩
  · exact hnamed .tabSize " 3" (.int 3) [] _ rfl (by decide) rfl rfl rfl
  · refine (hother .useThis (by decide)).resolve_right ?_
    rintro ⟨hkept, -⟩
    cases hkept

/-- The project while its configuration file may be written but not read. -/
def unreadable (content : Text) : Workspace :=
  { configured content with
    faults := { readText := fun path => some { kind := .denied, path := some path } } }

/-- Three changes that are not kept as they should be. The prefix is an object whose fields come in
order once the tab size is stored; a file that cannot be read during a change loses its fields; and
two halves of a pair are stored as one character. -/
theorem changes_are_not_always_kept :
    (∃ first last : Text,
      first = "\x7b\"private_member_prefix\": \x7b\"b\": 1, \"a\": 2\x7d\x7d" ∧
      last = "\x7b\n  \"private_member_prefix\": \x7b\n    \"a\": 2,\n    \"b\": 1\n  \x7d,\n" ++
          "  \"tab_size\": 2\n\x7d\n" ∧
      Accepts (configured first) ["p"] (.set "tab_size" "2") (configured last).tree ∧
      (configured first).loadSettings "." [] =
        .ok ({ privatePrefix := "\x7b'b': 1, 'a': 2\x7d" }, []) ∧
      (configured last).loadSettings "." [] =
        .ok ({ tabSize := 2, privatePrefix := "\x7b'a': 2, 'b': 1\x7d" }, [])) ∧
    (∃ first last : Text,
      first = "\x7b\"private_member_prefix\": \"_\"\x7d" ∧
      last = "\x7b\n  \"tab_size\": 2\n\x7d\n" ∧
      Accepts (unreadable first) ["p"] (.set "tab_size" "2") (configured last).tree ∧
      (configured first).loadConfig (Location.render ["p"]) =
        .ok ([("private_member_prefix", .str "_")], []) ∧
      (configured last).loadConfig (Location.render ["p"]) = .ok ([("tab_size", .int 2)], [])) ∧
    ∃ value last : Text,
      value = [.surrogate 0x3D, .surrogate 0x600] ∧
      last = "\x7b\n  \"private_member_prefix\": \"\\ud83d\\ude00\"\n\x7d\n" ∧
      Accepts (configured "\x7b\x7d") ["p"] (.set "private_member_prefix" value)
        (configured last).tree ∧
      (configured last).loadConfig (Location.render ["p"]) =
        .ok ([("private_member_prefix", .str "😀")], []) := by
  refine ⟨?_, ?_, ?_⟩
  · refine ⟨_, _, rfl, rfl,
      accepts_of_set "." (v := .int 2) ?_ rfl ?_, ?_, ?_⟩
    · decide +kernel
    · cbv
    · cbv
    · cbv
  · refine ⟨_, _, rfl, rfl,
      accepts_of_set "." (v := .int 2) ?_ rfl ?_, ?_, ?_⟩
    · decide +kernel
    · cbv
    · cbv
    · cbv
  · refine ⟨_, _, rfl, rfl, accepts_of_set "."
      (v := .text [.surrogate 0x3D, .surrogate 0x600]) ?_ rfl ?_, ?_⟩
    · decide +kernel
    · cbv
    · cbv

end CommandLine

end CSharpActions
