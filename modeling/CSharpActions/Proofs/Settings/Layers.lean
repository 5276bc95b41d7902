import CSharpActions.Settings.Layers
import Mathlib.Tactic.SplitIfs

/-!
# Which layer a setting comes from

Of the layers that have a valid value for a setting the highest one counts. Only a tab size that is
neither text nor a finite number stops the layers; any other invalid value is passed over.
-/
namespace CSharpActions

namespace Setting

variable {s : Setting} {raw : Json} {v : Value} {e : Error}

theorem ofName?_name (s : Setting) : ofName? s.name = some s := by cases s <;> decide

theorem eq_name_of_ofName? {t : Text} (h : ofName? t = some s) : t = s.name := by
  have hname := List.find?_some h
  exact (of_decide_eq_true hname).symm

theorem name_injective {k : Setting} (h : s.name = k.name) : s = k :=
  Option.some.inj (by rw [← ofName?_name s, ← ofName?_name k, h])

/-- The value that a raw value stands for, if it is valid. -/
def valid? (s : Setting) (raw : Json) : Option Value := (s.coerce raw).toOption

theorem valid?_of_ok (h : s.coerce raw = .ok v) : s.valid? raw = some v := by
  rw [valid?, h]
  rfl

theorem valid?_of_error (h : s.coerce raw = .error e) : s.valid? raw = none := by
  rw [valid?, h]
  rfl

theorem valid?_eq_some_iff : s.valid? raw = some v ↔ s.coerce raw = .ok v := by
  cases hc : s.coerce raw with
  | error e => simp [valid?_of_error hc]
  | ok u => simp [valid?_of_ok hc]

/-! ## Values that stop -/

/-- A value that cannot be compared with the bounds of the tab size. -/
inductive Unusable : Json → Error → Prop
  | null : Unusable .null .noNumber
  | arr (items : List Json) : Unusable (.arr items) .noNumber
  | obj (fields : List (Text × Json)) : Unusable (.obj fields) .noNumber
  | infinite (negative : Bool) : Unusable (.float (.infinite negative)) .infiniteNumber

theorem integerOf_error (h : integerOf s raw = .error e) :
    e.isInvalidValue = true ∨ Unusable raw e := by
  cases raw with
  | null =>
    cases h
    exact Or.inr .null
  | bool b =>
    cases h
    exact Or.inl rfl
  | int n => cases h
  | float x =>
    cases x with
    | nan =>
      cases h
      exact Or.inl rfl
    | infinite negative =>
      cases h
      exact Or.inr (.infinite negative)
    | finite => cases h
  | str t =>
    rw [integerOf] at h
    split at h
    · cases h
    · cases h
      exact Or.inl rfl
  | arr items =>
    cases h
    exact Or.inr (.arr items)
  | obj fields =>
    cases h
    exact Or.inr (.obj fields)

theorem coerceTabSize_error (h : coerceTabSize raw = .error e) :
    e.isInvalidValue = true ∨ Unusable raw e := by
  rw [coerceTabSize] at h
  split at h
  · rename_i e' he
    obtain rfl := Except.error.inj h
    exact integerOf_error he
  · split_ifs at h
    cases h
    exact Or.inl rfl

theorem coerceBool_error (h : coerceBool s raw = .error e) : e.isInvalidValue = true := by
  unfold coerceBool at h
  split at h
  · cases h
  · dsimp only at h
    split_ifs at h
    cases h
    rfl

theorem Unusable.coerce_eq (h : Unusable raw e) : tabSize.coerce raw = .error e := by
  cases h <;> rfl

theorem Unusable.isInvalidValue_eq (h : Unusable raw e) : e.isInvalidValue = false := by
  cases h <;> rfl

/-- Only a tab size has values that stop. -/
theorem coerce_error (h : s.coerce raw = .error e) :
    e.isInvalidValue = true ∨ s = .tabSize ∧ Unusable raw e := by
  have hmap : ∀ {α : Type} {f : α → Value} {x : Except Error α},
      x.map f = .error e → x = .error e := by
    intro α f x hx
    cases x with
    | error e' => exact congrArg Except.error (Except.error.inj hx)
    | ok a => cases hx
  cases s with
  | tabSize => exact (coerceTabSize_error (hmap h)).imp id fun hu => ⟨rfl, hu⟩
  | useThis => exact Or.inl (coerceBool_error (hmap h))
  | privatePrefix => cases h
  | reformat => exact Or.inl (coerceBool_error (hmap h))

/-- A valid tab size is within its bounds. -/
theorem exists_of_valid?_tabSize (h : tabSize.valid? raw = some v) :
    ∃ n, v = .int n ∧ 1 ≤ n ∧ n ≤ 16 := by
  rw [valid?, coerce, coerceTabSize] at h
  cases hi : integerOf .tabSize raw with
  | error e => simp [hi, Except.map, Except.toOption] at h
  | ok m =>
    rw [hi] at h
    dsimp only at h
    split_ifs at h with hm
    · simp [Except.map, Except.toOption] at h
    · simp only [Bool.or_eq_true, decide_eq_true_eq, not_or] at hm
      exact ⟨m, (Option.some.inj h).symm, by omega⟩

end Setting

namespace Settings

open Setting (Unusable)

variable {source : Source} {l l' : Loaded} {s : Setting} {e : Setting.Error} {raw : Json}
  {values : List (Text × Json)} {layers : List Layer}

/-- Each name stands once. -/
def Layer.IsDictionary (layer : Layer) : Prop := (layer.values.map Prod.fst).Nodup

/-- The value that a layer gives to a setting, if it has a valid one. -/
def Layer.value? (layer : Layer) (s : Setting) : Option Setting.Value :=
  (layer.values.lookup s.name).bind s.valid?

/-! ## One value -/

theorem get_add {name : Text} (h : l.add source name raw = .ok l') (s : Setting) :
    l'.settings.get s =
      if s.name = name then (s.valid? raw).getD (l.settings.get s) else l.settings.get s := by
  rw [Loaded.add] at h
  split at h
  · rename_i hname
    obtain rfl := Except.ok.inj h
    rw [if_neg]
    rintro rfl
    simp [Setting.ofName?_name] at hname
  · rename_i k hname
    obtain rfl := Setting.eq_name_of_ofName? hname
    split at h
    · rename_i v hv
      obtain rfl := Except.ok.inj h
      dsimp only
      split_ifs with hs
      · rw [Setting.name_injective hs, get_set_coerce _ hv, Setting.valid?_of_ok hv]
        rfl
      · exact get_set_of_ne _ _ fun hk => hs (hk ▸ rfl)
    · rename_i e he
      split_ifs at h
      obtain rfl := Except.ok.inj h
      dsimp only
      split_ifs with hs
      · rw [Setting.name_injective hs, Setting.valid?_of_error he]
        rfl
      · rfl

theorem add_error_iff {name : Text} :
    l.add source name raw = .error e ↔ name = Setting.tabSize.name ∧ Unusable raw e := by
  constructor
  · intro h
    rw [Loaded.add] at h
    split at h
    · cases h
    · rename_i k hname
      obtain rfl := Setting.eq_name_of_ofName? hname
      split at h
      · cases h
      · rename_i e' he
        split_ifs at h with hi
        obtain rfl := Except.error.inj h
        rcases Setting.coerce_error he with hvalid | ⟨rfl, hu⟩
        · exact absurd hvalid hi
        · exact ⟨rfl, hu⟩
  · rintro ⟨rfl, hu⟩
    rw [Loaded.add, Setting.ofName?_name]
    simp only [hu.coerce_eq, hu.isInvalidValue_eq, Bool.false_eq_true, if_false]

/-! ## A layer -/

theorem lookup_eq_none_of_nodup {key : Text} {v : Json} {r : List (Text × Json)}
    (h : (((key, v) :: r).map Prod.fst).Nodup) : r.lookup key = none := by
  rw [List.map_cons, List.nodup_cons] at h
  rw [List.lookup_eq_none_iff]
  intro f hf
  have hne : key ≠ f.1 := fun he => h.1 (List.mem_map.mpr ⟨f, hf, he.symm⟩)
  simpa using hne

theorem get_addAll (hn : (values.map Prod.fst).Nodup) (h : l.addAll source values = .ok l')
    (s : Setting) :
    l'.settings.get s = ((values.lookup s.name).bind s.valid?).getD (l.settings.get s) := by
  induction values generalizing l with
  | nil =>
    obtain rfl := Except.ok.inj h
    rfl
  | cons f r ih =>
    obtain ⟨name, raw⟩ := f
    rw [Loaded.addAll] at h
    split at h
    · cases h
    · rename_i m hm
      rw [ih (List.nodup_cons.mp hn).2 h, get_add hm, Lookup.lookup_cons_ite]
      split_ifs with hs
      · subst hs
        rw [lookup_eq_none_of_nodup hn]
        rfl
      · rfl

/-- The values hold a tab size that stops the layers. -/
def Stops (values : List (Text × Json)) (e : Setting.Error) : Prop :=
  ∃ raw, values.lookup Setting.tabSize.name = some raw ∧ Unusable raw e

theorem addAll_error_iff (hn : (values.map Prod.fst).Nodup) :
    l.addAll source values = .error e ↔ Stops values e := by
  unfold Stops
  induction values generalizing l with
  | nil => simp [Loaded.addAll]
  | cons f r ih =>
    obtain ⟨name, raw⟩ := f
    rw [Loaded.addAll, Lookup.lookup_cons_ite]
    split
    · rename_i e' he
      obtain ⟨rfl, hu⟩ := add_error_iff.mp he
      rw [if_pos rfl]
      constructor
      · intro h
        obtain rfl := Except.error.inj h
        exact ⟨raw, rfl, hu⟩
      · rintro ⟨raw', hraw, hu'⟩
        obtain rfl := Option.some.inj hraw
        have heq := hu.coerce_eq.symm.trans hu'.coerce_eq
        exact congrArg Except.error (Except.error.inj heq)
    · rename_i m hm
      rw [ih (List.nodup_cons.mp hn).2]
      split_ifs with hs
      · subst hs
        rw [lookup_eq_none_of_nodup hn]
        constructor
        · rintro ⟨raw', hraw, -⟩
          cases hraw
        · rintro ⟨raw', hraw, hu⟩
          obtain rfl := Option.some.inj hraw
          have hstop : l.add source Setting.tabSize.name raw = .error _ :=
            add_error_iff.mpr ⟨rfl, hu⟩
          rw [hm] at hstop
          cases hstop
      · rfl

/-! ## All layers -/

/-- A setting has the value of the highest layer that gives it one. -/
theorem get_applyLayers (hn : ∀ layer ∈ layers, layer.IsDictionary)
    (h : applyLayers l layers = .ok l') (s : Setting) :
    l'.settings.get s =
      layers.foldl (fun v layer => (layer.value? s).getD v) (l.settings.get s) := by
  induction layers generalizing l with
  | nil =>
    obtain rfl := Except.ok.inj h
    rfl
  | cons layer r ih =>
    obtain ⟨hlayer, hr⟩ := List.forall_mem_cons.mp hn
    rw [applyLayers] at h
    split at h
    · cases h
    · rename_i m hm
      rw [ih hr h, get_addAll hlayer hm, List.foldl_cons]
      rfl

theorem exists_applyLayers (hn : ∀ layer ∈ layers, layer.IsDictionary)
    (hs : ∀ layer ∈ layers, ∀ e, ¬Stops layer.values e) (l : Loaded) :
    ∃ l', applyLayers l layers = .ok l' := by
  induction layers generalizing l with
  | nil => exact ⟨l, rfl⟩
  | cons layer r ih =>
    obtain ⟨hlayer, hr⟩ := List.forall_mem_cons.mp hn
    obtain ⟨hgoes, hs⟩ := List.forall_mem_cons.mp hs
    rw [applyLayers]
    split
    · rename_i e he
      exact absurd ((addAll_error_iff hlayer).mp he) (hgoes e)
    · exact ih hr hs _

theorem applyLayers_of_stops {layer : Layer} (hn : layer.IsDictionary) (h : Stops layer.values e)
    (l : Loaded) (r : List Layer) : applyLayers l (layer :: r) = .error e := by
  rw [applyLayers, (addAll_error_iff hn).mpr h]

theorem bounds_foldl (layers : List Layer) {v : Setting.Value} (h : ∃ n, v = .int n ∧ 1 ≤ n ∧ n ≤ 16) :
    ∃ n, layers.foldl (fun v layer => (layer.value? .tabSize).getD v) v = .int n ∧
      1 ≤ n ∧ n ≤ 16 := by
  induction layers generalizing v with
  | nil => exact h
  | cons layer r ih =>
    refine ih ?_
    dsimp only
    cases hvalue : layer.value? .tabSize with
    | none => exact h
    | some u =>
      obtain ⟨raw, -, hu⟩ := Option.bind_eq_some_iff.mp hvalue
      exact Setting.exists_of_valid?_tabSize hu

/-- The tab size stays within its bounds. -/
theorem bounds_applyLayers (hn : ∀ layer ∈ layers, layer.IsDictionary)
    (h : applyLayers {} layers = .ok l) : 1 ≤ l.settings.tabSize ∧ l.settings.tabSize ≤ 16 := by
  obtain ⟨n, hvalue, hbounds⟩ := bounds_foldl layers (v := .int 4) ⟨4, rfl, by decide, by decide⟩
  have hget := (get_applyLayers hn h .tabSize).trans hvalue
  rw [Setting.Value.int.inj hget]
  exact hbounds

/-! ## The layers of a run -/

/-- The values that the environment has for some settings. -/
def given (env : List (Text × Text)) (settings : List Setting) : List (Text × Json) :=
  settings.filterMap fun k => (env.lookup k.environmentName).map (k.name, Json.str ·)

theorem lookup_given (env : List (Text × Text)) (s : Setting) (settings : List Setting) :
    (given env settings).lookup s.name =
      if s ∈ settings then (env.lookup s.environmentName).map .str else none := by
  induction settings with
  | nil => rfl
  | cons k ks ih =>
    unfold given at ih ⊢
    rw [List.filterMap_cons]
    by_cases hk : s = k
    · subst hk
      cases henv : env.lookup s.environmentName with
      | none =>
        rw [henv] at ih
        simpa using ih
      | some t => simp
    · have hname : s.name ≠ k.name := fun h => hk (Setting.name_injective h)
      have hmem : s ∈ k :: ks ↔ s ∈ ks := by simp [hk]
      simp only [hmem]
      cases env.lookup k.environmentName with
      | none => exact ih
      | some t =>
        simp only [Option.map_some]
        rw [Lookup.lookup_cons_ite, if_neg hname]
        exact ih

theorem lookup_environmentLayer (env : List (Text × Text)) (s : Setting) :
    (environmentLayer env).values.lookup s.name = (env.lookup s.environmentName).map .str :=
  (lookup_given env s Setting.all).trans (if_pos (by cases s <;> decide))

theorem names_given_sublist (env : List (Text × Text)) (settings : List Setting) :
    ((given env settings).map Prod.fst).Sublist (settings.map Setting.name) := by
  induction settings with
  | nil => exact List.Sublist.refl _
  | cons k ks ih =>
    unfold given at ih ⊢
    rw [List.filterMap_cons]
    cases env.lookup k.environmentName with
    | none => exact ih.cons _
    | some t => exact ih.cons_cons _

theorem isDictionary_environmentLayer (env : List (Text × Text)) :
    (environmentLayer env).IsDictionary :=
  (names_given_sublist env Setting.all).nodup (by decide)

theorem not_stops_environmentLayer (env : List (Text × Text)) (e : Setting.Error) :
    ¬Stops (environmentLayer env).values e := by
  rintro ⟨raw, hraw, hu⟩
  rw [lookup_environmentLayer] at hraw
  obtain ⟨t, -, rfl⟩ := Option.map_eq_some_iff.mp hraw
  cases hu

theorem isDictionary_overrideLayer (h : (values.map Prod.fst).Nodup) :
    (overrideLayer values).IsDictionary :=
  (List.filter_sublist.map Prod.fst).nodup h

/-- A value that a command passes: none, or of the type of a setting. -/
inductive IsOverride : Json → Prop
  | null : IsOverride .null
  | int (n : Int) : IsOverride (.int n)
  | bool (b : Bool) : IsOverride (.bool b)
  | str (t : Text) : IsOverride (.str t)

theorem not_stops_overrideLayer (h : ∀ f ∈ values, IsOverride f.2) (e : Setting.Error) :
    ¬Stops (overrideLayer values).values e := by
  rintro ⟨raw, hraw, hu⟩
  obtain ⟨above, below, hvalues, -⟩ := List.lookup_eq_some_iff.mp hraw
  have hmem : (Setting.tabSize.name, raw) ∈ (overrideLayer values).values := by
    rw [hvalues]
    simp
  obtain ⟨hmem, hnull⟩ := List.mem_filter.mp hmem
  have hgiven := h _ hmem
  cases hu with
  | null => simp at hnull
  | arr items => cases hgiven
  | obj fields => cases hgiven
  | infinite negative => cases hgiven

end Settings

end CSharpActions
