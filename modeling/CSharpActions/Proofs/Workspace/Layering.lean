import CSharpActions.Proofs.Settings.Layers
import CSharpActions.Proofs.Workspace.Configuration

/-!
# One setting at a time

Each setting is chosen on its own, from what the overrides, the environment and the configuration
file hold for it. A value that is not valid counts as if it were not there, and what stands under
any other name does not count at all.
-/
namespace CSharpActions

namespace Settings

variable {env : List (Text × Text)} {fields overrides : List (Text × Json)} {s : Setting}
  {v : Setting.Value}

/-- What a source holds for a setting. An override that is null is none. -/
def rawValue (env : List (Text × Text)) (fields overrides : List (Text × Json)) (s : Setting) :
    Source → Option Json
  | .file => fields.lookup s.name
  | .environment => (env.lookup s.environmentName).map .str
  | .override =>
    match overrides.lookup s.name with
    | some .null => none
    | raw? => raw?

/-- The first of the sources whose value can be converted decides, and else the default. -/
inductive Chosen (raw? : Source → Option Json) (s : Setting) : List Source → Setting.Value → Prop
  | taken {source : Source} {below : List Source} {raw : Json} {v : Setting.Value}
    (hraw : raw? source = some raw) (hv : s.coerce raw = .ok v) : Chosen raw? s (source :: below) v
  | passed {source : Source} {below : List Source} {v : Setting.Value}
    (hraw : ∀ raw v, raw? source = some raw → s.coerce raw ≠ .ok v)
    (h : Chosen raw? s below v) : Chosen raw? s (source :: below) v
  | default : Chosen raw? s [] (({} : Settings).get s)

theorem bind_valid?_eq_none_iff {raw? : Option Json} :
    raw?.bind s.valid? = none ↔ ∀ raw v, raw? = some raw → s.coerce raw ≠ .ok v := by
  rw [Option.bind_eq_none_iff]
  refine forall_congr' fun raw => ?_
  simp only [Option.eq_none_iff_forall_ne_some, ne_eq, Setting.valid?_eq_some_iff]
  exact forall_comm

/-- The choice goes through the sources from the last to the first. -/
theorem chosen_iff {raw? : Source → Option Json} {candidates : List Source} :
    Chosen raw? s candidates v ↔ candidates.foldr
      (fun source u => ((raw? source).bind s.valid?).getD u) (({} : Settings).get s) = v := by
  induction candidates with
  | nil =>
    constructor
    · rintro ⟨⟩
      rfl
    · rintro rfl
      exact .default
  | cons source below ih =>
    rw [List.foldr_cons]
    cases hvalue : (raw? source).bind s.valid? with
    | none =>
      have hpassed := bind_valid?_eq_none_iff.mp hvalue
      rw [Option.getD_none, ← ih]
      constructor
      · rintro (⟨hraw, hv⟩ | ⟨-, h⟩)
        · exact absurd hv (hpassed _ _ hraw)
        · exact h
      · exact .passed hpassed
    | some u =>
      obtain ⟨raw, hraw, hu⟩ := Option.bind_eq_some_iff.mp hvalue
      have hu := Setting.valid?_eq_some_iff.mp hu
      rw [Option.getD_some]
      constructor
      · rintro (⟨hraw', hv⟩ | ⟨hpassed, -⟩)
        · rw [hraw] at hraw'
          obtain rfl := Option.some.inj hraw'
          exact Except.ok.inj (hu.symm.trans hv)
        · exact absurd hu (hpassed _ _ hraw)
      · rintro rfl
        exact .taken hraw hu

theorem lookup_filter {values : List (Text × Json)} (hn : (values.map Prod.fst).Nodup)
    (q : Text × Json → Bool) (key : Text) :
    (values.filter q).lookup key = (values.lookup key).filter fun raw => q (key, raw) := by
  induction values with
  | nil => rfl
  | cons f r ih =>
    obtain ⟨name, raw⟩ := f
    have ih := ih (List.nodup_cons.mp hn).2
    rw [Lookup.lookup_cons_ite, List.filter_cons]
    by_cases hkey : key = name
    · subst hkey
      rw [lookup_eq_none_of_nodup hn] at ih
      rw [if_pos rfl, Option.filter_some]
      split
      · rw [Lookup.lookup_cons_ite, if_pos rfl]
      · exact ih
    · rw [if_neg hkey, ← ih]
      split
      · rw [Lookup.lookup_cons_ite, if_neg hkey]
      · rfl

theorem lookup_overrideLayer (env : List (Text × Text)) (fields : List (Text × Json))
    (ho : (overrides.map Prod.fst).Nodup) (s : Setting) :
    (overrideLayer overrides).values.lookup s.name = rawValue env fields overrides s .override := by
  rw [overrideLayer, lookup_filter ho, rawValue]
  cases overrides.lookup s.name with
  | none => rfl
  | some raw => cases raw <;> rfl

/-- What stands under the names of settings. -/
def known (values : List (Text × Json)) : List (Text × Json) :=
  values.filter fun f => (Setting.ofName? f.1).isSome

theorem addAll_known (source : Source) (l : Loaded) (values : List (Text × Json)) :
    l.addAll source (known values) = l.addAll source values := by
  induction values generalizing l with
  | nil => rfl
  | cons f r ih =>
    obtain ⟨name, raw⟩ := f
    rw [known, List.filter_cons]
    cases hname : Setting.ofName? name with
    | none =>
      rw [Loaded.addAll, Loaded.add, hname]
      exact ih l
    | some k =>
      simp only [Option.isSome_some, if_true, Loaded.addAll]
      cases l.add source name raw with
      | error e => rfl
      | ok m => exact ih m

def Layer.known (layer : Layer) : Layer := { layer with values := Settings.known layer.values }

/-- What stands under any other name does not count. -/
theorem applyLayers_known (l : Loaded) (layers : List Layer) :
    applyLayers l (layers.map Layer.known) = applyLayers l layers := by
  induction layers generalizing l with
  | nil => rfl
  | cons layer r ih =>
    rw [List.map_cons, applyLayers, applyLayers, Layer.known, addAll_known]
    cases l.addAll layer.source layer.values with
    | error e => rfl
    | ok m => exact ih m

theorem known_overrideLayer (overrides : List (Text × Json)) :
    (overrideLayer overrides).known = overrideLayer (known overrides) := by
  simp only [Layer.known, known, overrideLayer, List.filter_filter, Bool.and_comm]

theorem environmentLayer_congr {env' : List (Text × Text)}
    (h : ∀ s : Setting, env'.lookup s.environmentName = env.lookup s.environmentName) :
    environmentLayer env' = environmentLayer env := by
  simp only [environmentLayer, h]

end Settings

namespace Workspace

open Settings (Chosen known rawValue)

variable {w : Workspace} {start : Text} {fields overrides : List (Text × Json)}
  {settings : Settings} {warnings : List Warning}

/-- The fields of the configuration file for a path; there are none if it cannot be read. -/
def ReadsConfig (w : Workspace) (start : Text) (fields : List (Text × Json)) : Prop :=
  ∃ root warnings, w.projectRoot start = .ok root ∧
    w.loadConfig root.render = .ok (fields, warnings)

theorem nodup_of_loadConfig {root : Text} (h : w.loadConfig root = .ok (fields, warnings)) :
    (fields.map Prod.fst).Nodup := by
  unfold loadConfig at h
  dsimp only at h
  split at h
  · cases h
  · obtain ⟨rfl, -⟩ := Prod.mk.inj (Except.ok.inj h)
    exact List.nodup_nil
  · split at h
    · obtain ⟨rfl, -⟩ := Prod.mk.inj (Except.ok.inj h)
      exact List.nodup_nil
    · split at h
      · cases h
      · rename_i text htext
        split at h
        · obtain ⟨rfl, -⟩ := Prod.mk.inj (Except.ok.inj h)
          exact List.nodup_nil
        · cases h
        · rename_i hparse
          obtain ⟨rfl, -⟩ := Prod.mk.inj (Except.ok.inj h)
          have hencode := Text.Utf8.decode?_eq_some_iff_encode?.mp htext
          have hfits := Json.fits_of_parse
            (Text.Utf8.encodable_unifyNewlines (Text.Utf8.Encodable.of_encode? hencode)) hparse
          cases hfits with
          | obj hn _ => exact hn.nodup
        · obtain ⟨rfl, -⟩ := Prod.mk.inj (Except.ok.inj h)
          exact List.nodup_nil

theorem loadSettings_eq_ok_iff (hread : w.ReadsConfig start fields) :
    (∃ warnings, w.loadSettings start overrides = .ok (settings, warnings)) ↔
      ∃ loaded, loaded.settings = settings ∧ Settings.applyLayers {} [⟨.file, fields⟩,
        Settings.environmentLayer w.env, Settings.overrideLayer overrides] = .ok loaded := by
  obtain ⟨root, ws, hroot, hload⟩ := hread
  rw [loadSettings, hroot]
  dsimp only
  rw [hload]
  dsimp only
  cases Settings.applyLayers {} [⟨.file, fields⟩, Settings.environmentLayer w.env,
    Settings.overrideLayer overrides] with
  | error e => simp
  | ok loaded => simp

theorem exists_readsConfig (h : w.loadSettings start overrides = .ok (settings, warnings)) :
    ∃ fields, w.ReadsConfig start fields := by
  unfold loadSettings at h
  split at h
  · cases h
  · rename_i root hroot
    split at h
    · cases h
    · rename_i fields ws hload
      exact ⟨fields, root, ws, hroot, hload⟩

theorem chosen_iff_get (hread : w.ReadsConfig start fields) (ho : (overrides.map Prod.fst).Nodup)
    (h : w.loadSettings start overrides = .ok (settings, warnings)) (s : Setting)
    (v : Setting.Value) :
    Chosen (rawValue w.env fields overrides s) s [.override, .environment, .file] v ↔
      settings.get s = v := by
  obtain ⟨loaded, rfl, happly⟩ := (loadSettings_eq_ok_iff hread).mp ⟨warnings, h⟩
  obtain ⟨root, ws, -, hload⟩ := hread
  have hlayers : ∀ layer ∈ [⟨.file, fields⟩, Settings.environmentLayer w.env,
      Settings.overrideLayer overrides], Settings.Layer.IsDictionary layer := by
    simp only [List.forall_mem_cons]
    exact ⟨nodup_of_loadConfig hload, Settings.isDictionary_environmentLayer w.env,
      Settings.isDictionary_overrideLayer ho, by simp⟩
  have henv := Settings.lookup_environmentLayer w.env s
  have hoverride := Settings.lookup_overrideLayer w.env fields ho s
  rw [Settings.chosen_iff, Settings.get_applyLayers hlayers happly]
  simp only [List.foldr_cons, List.foldr_nil, List.foldl_cons, List.foldl_nil,
    Settings.Layer.value?, henv, hoverride, rawValue]

/-- Only the names of settings count. -/
theorem loadSettings_of_known {w' : Workspace} {start' : Text}
    {fields' overrides' : List (Text × Json)} (hread : w.ReadsConfig start fields)
    (hread' : w'.ReadsConfig start' fields')
    (h : w.loadSettings start overrides = .ok (settings, warnings))
    (hf : known fields' = known fields) (ho : known overrides' = known overrides)
    (he : ∀ s : Setting, w'.env.lookup s.environmentName = w.env.lookup s.environmentName) :
    ∃ warnings', w'.loadSettings start' overrides' = .ok (settings, warnings') := by
  obtain ⟨loaded, hsettings, happly⟩ := (loadSettings_eq_ok_iff hread).mp ⟨warnings, h⟩
  refine (loadSettings_eq_ok_iff hread').mpr ⟨loaded, hsettings, ?_⟩
  have hfile : Settings.Layer.known ⟨.file, fields'⟩ = Settings.Layer.known ⟨.file, fields⟩ := by
    rw [Settings.Layer.known, Settings.Layer.known, hf]
  rw [← happly, ← Settings.applyLayers_known,
    ← Settings.applyLayers_known {} [⟨.file, fields⟩, _, _], Settings.environmentLayer_congr he]
  simp only [List.map_cons, List.map_nil, Settings.known_overrideLayer, ho, hfile]

/-- For every configuration file, environment and overrides, whenever the settings are loaded: each
setting is the converted value of the highest source whose value can be converted, and else the
default. In another run it is the same if the sources hold the same for it, whatever they hold for
the others; and what stands under any other name changes no setting. -/
theorem settings_are_layered (ho : (overrides.map Prod.fst).Nodup)
    (h : w.loadSettings start overrides = .ok (settings, warnings)) :
    ∃ fields, w.ReadsConfig start fields ∧
      (∀ s v, Chosen (rawValue w.env fields overrides s) s [.override, .environment, .file] v ↔
        settings.get s = v) ∧
      ∀ (w' : Workspace) (start' : Text) (fields' overrides' : List (Text × Json)),
        w'.ReadsConfig start' fields' → (overrides'.map Prod.fst).Nodup →
        (∀ settings' warnings', w'.loadSettings start' overrides' = .ok (settings', warnings') →
          ∀ s, (∀ source, rawValue w'.env fields' overrides' s source =
            rawValue w.env fields overrides s source) → settings'.get s = settings.get s) ∧
        (known fields' = known fields → known overrides' = known overrides →
          (∀ s : Setting, w'.env.lookup s.environmentName = w.env.lookup s.environmentName) →
            ∃ warnings', w'.loadSettings start' overrides' = .ok (settings, warnings')) := by
  obtain ⟨fields, hread⟩ := exists_readsConfig h
  refine ⟨fields, hread, chosen_iff_get hread ho h, ?_⟩
  intro w' start' fields' overrides' hread' ho'
  refine ⟨fun settings' warnings' h' s hsame => ?_, loadSettings_of_known hread hread' h⟩
  have hchosen := (chosen_iff_get hread ho h s _).mpr rfl
  rw [← funext hsame] at hchosen
  exact (chosen_iff_get hread' ho' h' s _).mp hchosen

/-- The override and the variable for the tab size are not valid, and the file has the value. -/
theorem settings_are_layered_below_invalid_values :
    ∃ (w : Workspace) (overrides : List (Text × Json)),
      w = { tree := ⟨[(["p", ".sharpkit", "config.json"], .file ((Text.Utf8.encode?
              ("\x7b\"tab_size\": 2, \"reformat_after_change\": true, \"colour\": null, " ++
                "\"use_this_for_ctor_assignments\": \" No \"\x7d")).getD [])),
            (["p", ".sharpkit"], .directory), (["p", ".git"], .directory), (["p"], .directory)]⟩,
            cwd := ["p"], env := [("SHARPKIT_TAB_SIZE", "many"), ("SHARPKIT_REFORMAT", "off")] } ∧
      overrides = [("tab_size".text, .int 99), ("colour", .arr []),
        ("reformat_after_change", .null)] ∧
      (overrides.map Prod.fst).Nodup ∧
      ∃ settings warnings, w.loadSettings "." overrides = .ok (settings, warnings) ∧
        settings = { tabSize := 2, useThis := false, privatePrefix := [], reformat := false } ∧
        ∃ fields, w.ReadsConfig "." fields ∧ ∀ s v,
          Chosen (rawValue w.env fields overrides s) s [.override, .environment, .file] v ↔
            settings.get s = v := by
  refine ⟨_, _, rfl, rfl, by decide, ?_⟩
  generalize hw : Workspace.mk _ _ _ _ _ = w
  have hvalues : (w.loadSettings "." [("tab_size".text, .int 99), ("colour", .arr []),
      ("reformat_after_change", .null)]).toOption.map Prod.fst =
        some { tabSize := 2, useThis := false, privatePrefix := [], reformat := false } := by
    rw [← hw]
    decide +kernel
  cases hload : w.loadSettings "." [("tab_size".text, .int 99), ("colour", .arr []),
      ("reformat_after_change", .null)] with
  | error e =>
    rw [hload] at hvalues
    cases hvalues
  | ok loaded =>
    rw [hload] at hvalues
    obtain ⟨fields, hread, hget, -⟩ := settings_are_layered (by decide) hload
    exact ⟨loaded.1, loaded.2, rfl, Option.some.inj hvalues, fields, hread, hget⟩

end Workspace

end CSharpActions
