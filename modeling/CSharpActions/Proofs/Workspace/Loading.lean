import CSharpActions.Proofs.Settings.Layers
import CSharpActions.Proofs.Workspace.Configuration
import Mathlib

/-!
# Loading settings

For any configuration file, any environment and any overrides that a command passes, each setting is
that of the highest layer with a valid value. A file that is not UTF-8, that exceeds a bound of JSON
texts, or that gives the tab size a value which is neither text nor a finite number stops the run
instead.
-/
namespace CSharpActions.Workspace

open Text.Utf8 (Bytes)

variable {w : Workspace} {root : Location} {start : Text} {overrides : List (Text × Json)}

/-- The layers of a run, the lowest first. -/
def layers (w : Workspace) (root : Location) (overrides : List (Text × Json)) :
    List Settings.Layer :=
  [⟨.file, w.storedFields root⟩, Settings.environmentLayer w.env, Settings.overrideLayer overrides]

/-- The value of the highest layer that has a valid one, and else the default. -/
def effective (w : Workspace) (root : Location) (overrides : List (Text × Json)) (s : Setting) :
    Setting.Value :=
  (w.layers root overrides).foldl (fun v layer => (layer.value? s).getD v) (({} : Settings).get s)

theorem isDictionary_of_mem_layers (ho : (overrides.map Prod.fst).Nodup) :
    ∀ layer ∈ w.layers root overrides, layer.IsDictionary := by
  have hstored : (Settings.Layer.mk .file (w.storedFields root)).IsDictionary := by
    have hfits := w.fits_storedFields root
    cases hfits with
    | obj hn _ => exact hn.nodup
  simp only [layers, List.forall_mem_cons]
  exact ⟨hstored, Settings.isDictionary_environmentLayer w.env,
    Settings.isDictionary_overrideLayer ho, by simp⟩

/-- Settings that are loaded are those of the highest layers. -/
theorem get_of_loadSettings (ht : w.tree.WellFormed) (hc : ∀ name ∈ w.cwd, Path.IsName name)
    (hroot : w.projectRoot start = .ok root) (ho : (overrides.map Prod.fst).Nodup)
    {settings : Settings} {warnings : List Warning}
    (h : w.loadSettings start overrides = .ok (settings, warnings)) (s : Setting) :
    settings.get s = w.effective root overrides s := by
  rw [loadSettings, hroot] at h
  dsimp only at h
  split at h
  · cases h
  · rename_i fields ws hload
    obtain rfl := eq_storedFields ht (isName_of_projectRoot hc hroot) hload
    split at h
    · cases h
    · rename_i loaded hlayers
      obtain ⟨rfl, -⟩ := Prod.mk.inj (Except.ok.inj h)
      exact Settings.get_applyLayers (isDictionary_of_mem_layers ho) hlayers s

/-- Once the configuration is loaded, only an unusable tab size stops the run. -/
theorem exists_loadSettings {warnings : List Warning} (hroot : w.projectRoot start = .ok root)
    (hload : w.loadConfig root.render = .ok (w.storedFields root, warnings))
    (ho : (overrides.map Prod.fst).Nodup) (hv : ∀ f ∈ overrides, Settings.IsOverride f.2)
    (hs : ∀ e, ¬Settings.Stops (w.storedFields root) e) :
    ∃ settings ignored, w.loadSettings start overrides = .ok (settings, ignored) ∧
      1 ≤ settings.tabSize ∧ settings.tabSize ≤ 16 := by
  have hdictionary : ∀ layer ∈ w.layers root overrides, layer.IsDictionary :=
    isDictionary_of_mem_layers ho
  have hlayers : ∀ layer ∈ w.layers root overrides, ∀ e, ¬Settings.Stops layer.values e := by
    simp only [layers, List.forall_mem_cons]
    exact ⟨hs, Settings.not_stops_environmentLayer w.env, Settings.not_stops_overrideLayer hv,
      by simp⟩
  obtain ⟨loaded, hloaded⟩ := Settings.exists_applyLayers hdictionary hlayers {}
  refine ⟨loaded.settings, warnings ++ loaded.ignored.map .ignored, ?_,
    Settings.bounds_applyLayers hdictionary hloaded⟩
  rw [layers] at hloaded
  simp only [loadSettings, hroot, hload, hloaded]

/-- For every file tree, start, environment and overrides of a command: the settings are loaded,
with a tab size between 1 and 16 and each setting from the highest layer with a valid value, unless
the bytes of the configuration file cannot be read as JSON, its tab size is unusable, or its path is
too long for the system. -/
theorem loadSettings_outcome (w : Workspace) (start : Text) (root : Location)
    (overrides : List (Text × Json)) (ht : w.tree.WellFormed)
    (hc : ∀ name ∈ w.cwd, Path.IsName name) (hroot : w.projectRoot start = .ok root)
    (ho : (overrides.map Prod.fst).Nodup) (hv : ∀ f ∈ overrides, Settings.IsOverride f.2) :
    (∃ settings warnings, w.loadSettings start overrides = .ok (settings, warnings) ∧
        (1 ≤ settings.tabSize ∧ settings.tabSize ≤ 16) ∧
        (∀ s, settings.get s = w.effective root overrides s) ∧
        (∀ bytes e, w.readRaw (configPath root.render) = .ok bytes →
          ¬Unparsable w.platform.jsonNesting bytes e) ∧
        ∀ e, ¬Settings.Stops (w.storedFields root) e) ∨
      (∃ bytes e, w.readRaw (configPath root.render) = .ok bytes ∧
        Unparsable w.platform.jsonNesting bytes e ∧ w.loadSettings start overrides = .error e) ∨
      (∃ e, Settings.Stops (w.storedFields root) e ∧
        w.loadSettings start overrides = .error (.setting e)) ∨
      (configFile root).TooLong ∧ ∃ e, w.loadSettings start overrides = .error (.file e) := by
  have hn := isName_of_projectRoot hc hroot
  rcases loadConfig_cases ht hn with ⟨warnings, hload, hgoes⟩ | ⟨bytes, e, hraw, hbytes, hload⟩ |
    ⟨hlong, e, hload⟩
  · by_cases hstops : ∃ e, Settings.Stops (w.storedFields root) e
    · obtain ⟨e, he⟩ := hstops
      refine Or.inr (Or.inr (Or.inl ⟨e, he, ?_⟩))
      have hdictionary : ∀ layer ∈ w.layers root overrides, layer.IsDictionary :=
        isDictionary_of_mem_layers ho
      simp only [loadSettings, hroot, hload,
        Settings.applyLayers_of_stops (hdictionary _ List.mem_cons_self) he]
    · replace hstops : ∀ e, ¬Settings.Stops (w.storedFields root) e :=
        fun e he => hstops ⟨e, he⟩
      obtain ⟨settings, ignored, hloads, hbounds⟩ := exists_loadSettings hroot hload ho hv hstops
      exact Or.inl ⟨settings, ignored, hloads, hbounds, get_of_loadSettings ht hc hroot ho hloads,
        hgoes, hstops⟩
  · exact Or.inr (Or.inl ⟨bytes, e, hraw, hbytes, by simp only [loadSettings, hroot, hload]⟩)
  · exact Or.inr (Or.inr (Or.inr ⟨hlong, e, by simp only [loadSettings, hroot, hload]⟩))

/-- Three of the file's values and one variable are not valid, and one override is not given. -/
theorem loadSettings_passes_over_invalid_values :
    ∃ (w : Workspace) (overrides : List (Text × Json)),
      w = { tree := ⟨[(["p", ".sharpkit", "config.json"], .file ((Text.Utf8.encode?
              ("\x7b\"tab_size\": 99, \"private_member_prefix\": 7, " ++
                "\"use_this_for_ctor_assignments\": []\x7d")).getD [])),
            (["p", ".sharpkit"], .directory), (["p", ".git"], .directory), (["p"], .directory)]⟩,
            cwd := ["p"], env := [("SHARPKIT_TAB_SIZE", "many"), ("SHARPKIT_REFORMAT", "off")] } ∧
      overrides = [("tab_size".text, Json.null), ("private_member_prefix", .str "_")] ∧
      w.tree.WellFormed ∧ (∀ name ∈ w.cwd, Path.IsName name) ∧
      w.projectRoot "." = .ok ["p"] ∧ (overrides.map Prod.fst).Nodup ∧
      (∀ f ∈ overrides, Settings.IsOverride f.2) ∧
      ∃ settings warnings, w.loadSettings "." overrides = .ok (settings, warnings) ∧
        settings = { tabSize := 4, useThis := true, privatePrefix := "_", reformat := false } := by
  refine ⟨_, _, rfl, rfl, ?_⟩
  generalize hw : Workspace.mk _ _ _ _ _ = w
  have ht : w.tree.WellFormed := by
    rw [← hw]
    decide +kernel
  have hc : ∀ name ∈ w.cwd, Path.IsName name := by
    rw [← hw]
    decide
  have hroot : w.projectRoot "." = .ok ["p"] := by
    rw [← hw]
    decide +kernel
  have hv : ∀ f ∈ [("tab_size".text, Json.null), ("private_member_prefix", .str "_")],
      Settings.IsOverride f.2 := by
    intro f hf
    simp only [List.mem_cons, List.not_mem_nil, or_false] at hf
    rcases hf with rfl | rfl
    · exact .null
    · exact .str _
  have hloads : (w.loadSettings "."
      [("tab_size".text, Json.null), ("private_member_prefix", .str "_")]).isOk = true := by
    rw [← hw]
    decide +kernel
  have hvalues : Setting.all.map (w.effective ["p"]
      [("tab_size".text, Json.null), ("private_member_prefix", .str "_")]) =
        [.int 4, .bool true, .text "_", .bool false] := by
    rw [← hw]
    decide +kernel
  refine ⟨ht, hc, hroot, by decide, hv, ?_⟩
  rcases loadSettings_outcome w "." ["p"] _ ht hc hroot (by decide) hv with
    ⟨settings, warnings, hload, -, hget, -⟩ | ⟨_, e, _, _, hload⟩ | ⟨e, _, hload⟩ | ⟨_, e, hload⟩
  · refine ⟨settings, warnings, hload, ?_⟩
    rw [← funext hget] at hvalues
    cases settings
    simpa [Setting.all, Settings.get] using hvalues
  · simp [hload, Except.isOk, Except.toBool] at hloads
  · simp [hload, Except.isOk, Except.toBool] at hloads
  · simp [hload, Except.isOk, Except.toBool] at hloads

/-- A tab size that is null or infinite stops the run, and so does a byte that is not UTF-8. -/
theorem loadSettings_stops_for_invalid_file :
    ∃ w : Bytes → Workspace,
      (w = fun bytes =>
        { tree := ⟨[(["p", ".sharpkit", "config.json"], .file bytes),
            (["p", ".sharpkit"], .directory), (["p", ".git"], .directory), (["p"], .directory)]⟩,
          cwd := ["p"] }) ∧
      (w ((Text.Utf8.encode? "\x7b\"tab_size\": null\x7d").getD [])).loadSettings "." [] =
        .error (.setting .noNumber) ∧
      (w ((Text.Utf8.encode? "\x7b\"tab_size\": Infinity\x7d").getD [])).loadSettings "." [] =
        .error (.setting .infiniteNumber) ∧
      (w [0xE9]).loadSettings "." [] = .error .undecodable := by
  refine ⟨_, rfl, ?_, ?_, ?_⟩
  · cbv
  · cbv
  · cbv

end CSharpActions.Workspace
