import CSharpActions.Proofs.Json.Tokens
import Mathlib.Data.List.Nodup

/-!
# What a JSON text can hold

A value that is read is not nested too deeply, its integers have not too many digits, each name
stands once in an object, and no string keeps the halves of a surrogate pair apart.
-/
namespace CSharpActions.Json

open Text.Utf8 (Encodable)

/-- Names of fields as the reader returns them. -/
structure FieldNames (fields : List (Text × Json)) : Prop where
  nodup : (fields.map Prod.fst).Nodup
  joined : ∀ f ∈ fields, f.1.Joined

/-- The value is within the bounds of the reader, with at most `room` arrays and objects open. -/
inductive Fits : Nat → Json → Prop
  | null {room : Nat} : Fits room .null
  | bool {room : Nat} (b : Bool) : Fits room (.bool b)
  | int {room : Nat} {n : Int} (h : Text.Readable n) : Fits room (.int n)
  | float {room : Nat} (x : Binary64) : Fits room (.float x)
  | str {room : Nat} {s : Text} (h : s.Joined) : Fits room (.str s)
  | arr {room : Nat} {items : List Json} (h : ∀ v ∈ items, Fits room v) :
    Fits (room + 1) (.arr items)
  | obj {room : Nat} {fields : List (Text × Json)} (hn : FieldNames fields)
    (h : ∀ f ∈ fields, Fits room f.2) : Fits (room + 1) (.obj fields)

variable {room fuel : Nat} {t r : Text} {v : Json}

/-! ## Fields -/

theorem mem_setField {α : Type} {key : Text} {value : α} {fields : List (Text × α)} {f : Text × α}
    (h : f ∈ setField key value fields) : f = (key, value) ∨ f ∈ fields := by
  induction fields with
  | nil => exact Or.inl (List.mem_singleton.mp h)
  | cons g r ih =>
    rw [setField] at h
    split at h
    · rename_i hk
      rcases List.mem_cons.mp h with h | h
      · exact Or.inl (by rw [h, hk])
      · exact Or.inr (List.mem_cons_of_mem _ h)
    · rcases List.mem_cons.mp h with h | h
      · exact Or.inr (h ▸ List.mem_cons_self)
      · exact (ih h).imp id (List.mem_cons_of_mem _)

theorem nodup_setField {α : Type} (key : Text) (value : α) {fields : List (Text × α)}
    (h : (fields.map Prod.fst).Nodup) : ((setField key value fields).map Prod.fst).Nodup := by
  induction fields with
  | nil => exact List.nodup_singleton key
  | cons f r ih =>
    obtain ⟨hf, hr⟩ := List.nodup_cons.mp h
    rw [setField]
    split
    · exact h
    · rename_i hk
      refine List.nodup_cons.mpr ⟨fun hm => ?_, ih hr⟩
      obtain ⟨g, hg, hgf⟩ := List.mem_map.mp hm
      rcases mem_setField hg with rfl | hg
      · exact hk hgf.symm
      · exact hf (List.mem_map.mpr ⟨g, hg, hgf⟩)

theorem setField_of_notMem {α : Type} {key : Text} (value : α) {fields : List (Text × α)}
    (h : key ∉ fields.map Prod.fst) : setField key value fields = fields ++ [(key, value)] := by
  induction fields with
  | nil => rfl
  | cons f r ih =>
    rw [List.map_cons, List.mem_cons, not_or] at h
    rw [setField, if_neg (Ne.symm h.1), ih h.2, List.cons_append]

theorem FieldNames.nil : FieldNames [] := ⟨List.nodup_nil, by simp⟩

theorem FieldNames.of_map_fst_eq {fields fields' : List (Text × Json)} (h : FieldNames fields)
    (he : fields'.map Prod.fst = fields.map Prod.fst) : FieldNames fields' where
  nodup := he ▸ h.nodup
  joined := by
    intro f hf
    have hmem := List.mem_map_of_mem (f := Prod.fst) hf
    rw [he] at hmem
    obtain ⟨g, hg, hgf⟩ := List.mem_map.mp hmem
    exact hgf ▸ h.joined g hg

theorem FieldNames.setField {key : Text} {value : Json} {fields : List (Text × Json)}
    (h : FieldNames fields) (hk : key.Joined) : FieldNames (setField key value fields) where
  nodup := nodup_setField key value h.nodup
  joined := by
    intro f hf
    rcases mem_setField hf with rfl | hf
    · exact hk
    · exact h.joined f hf

/-! ## Bounds of what is read -/

theorem suffix_skipSpace (t : Text) : skipSpace t <:+ t := List.dropWhile_suffix _

theorem exists_of_map_eq_ok {ε α β : Type} {f : α → β} {x : Except ε α} {b : β}
    (h : x.map f = .ok b) : ∃ a, x = .ok a ∧ f a = b := by
  cases x with
  | error e => simp [Except.map] at h
  | ok a => exact ⟨a, rfl, Except.ok.inj h⟩

/-- A value that was read from the front of `t` is within its bounds, and the rest ends `t`. -/
def ReadsValues (fuel : Nat) : Prop :=
  ∀ {room : Nat} {t r : Text} {v : Json}, Encodable t → value fuel room t = .ok (v, r) →
    Fits room v ∧ r <:+ t

/-- What holds of the fields seen so far holds of all fields. -/
def ReadsMembers (fuel : Nat) : Prop :=
  ∀ {room : Nat} {t r : Text} {seen fields : List (Text × Json)}, Encodable t → FieldNames seen →
    (∀ f ∈ seen, Fits room f.2) → members fuel room seen t = .ok (fields, r) →
      FieldNames fields ∧ (∀ f ∈ fields, Fits room f.2) ∧ r <:+ t

def ReadsElements (fuel : Nat) : Prop :=
  ∀ {room : Nat} {t r : Text} {items : List Json}, Encodable t →
    elements fuel room t = .ok (items, r) → (∀ v ∈ items, Fits room v) ∧ r <:+ t

theorem exists_word_of_word? (h : word? t = some (v, r)) :
    (∀ room, Fits room v) ∧ r <:+ t := by
  obtain ⟨⟨w, u⟩, hw, hv⟩ := List.exists_of_findSome?_eq_some h
  obtain ⟨s, hs, hsv⟩ := Option.map_eq_some_iff.mp hv
  obtain ⟨rfl, rfl⟩ := Prod.mk.inj hsv
  refine ⟨fun room => ?_, ?_⟩
  · simp only [words, List.mem_cons, Prod.mk.injEq, List.not_mem_nil, or_false] at hw
    rcases hw with ⟨-, rfl⟩ | ⟨-, rfl⟩ | ⟨-, rfl⟩ | ⟨-, rfl⟩ | ⟨-, rfl⟩ | ⟨-, rfl⟩
    · exact .null
    · exact .bool true
    · exact .bool false
    · exact .float _
    · exact .float _
    · exact .float _
  · exact ⟨w, (Text.after?_eq_some_iff.mp hs).symm⟩

theorem fits_of_number {negative : Bool} (h : number negative t = .ok (v, r)) :
    Fits room v ∧ r <:+ t := by
  obtain ⟨hr, ⟨n, rfl, hn⟩ | ⟨x, rfl⟩⟩ := number_cases h
  · exact ⟨.int hn, hr⟩
  · exact ⟨.float x, hr⟩

theorem readsValues_succ (hm : ReadsMembers fuel) (he : ReadsElements fuel) :
    ReadsValues (fuel + 1) := by
  intro room t r v ht h
  rw [value.eq_def] at h
  dsimp only at h
  split at h
  · rename_i u
    obtain ⟨⟨s, w⟩, hs, heq⟩ := exists_of_map_eq_ok h
    obtain ⟨rfl, rfl⟩ := Prod.mk.inj heq
    have hread := stringRead_of_stringBody (ht.of_subset (List.subset_cons_self _ u)) hs
    exact ⟨.str hread.joined, hread.suffix.trans (List.suffix_cons _ _)⟩
  · rename_i u
    have hspace : skipSpace u <:+ .char '{' :: u := (suffix_skipSpace u).trans (List.suffix_cons _ _)
    split at h
    · simp at h
    · rename_i heq
      obtain ⟨rfl, rfl⟩ := Prod.mk.inj (Except.ok.inj h)
      refine ⟨.obj .nil (by simp), ?_⟩
      exact (List.suffix_cons _ _).trans (heq ▸ hspace)
    · obtain ⟨⟨fields, w⟩, hf, heq⟩ := exists_of_map_eq_ok h
      obtain ⟨rfl, rfl⟩ := Prod.mk.inj heq
      obtain ⟨hn, hv, hr⟩ := hm (ht.of_subset hspace.subset) .nil (by simp) hf
      exact ⟨.obj hn hv, hr.trans hspace⟩
  · rename_i u
    have hspace : skipSpace u <:+ .char '[' :: u := (suffix_skipSpace u).trans (List.suffix_cons _ _)
    split at h
    · simp at h
    · rename_i heq
      obtain ⟨rfl, rfl⟩ := Prod.mk.inj (Except.ok.inj h)
      exact ⟨.arr (by simp), (List.suffix_cons _ _).trans (heq ▸ hspace)⟩
    · obtain ⟨⟨items, w⟩, hi, heq⟩ := exists_of_map_eq_ok h
      obtain ⟨rfl, rfl⟩ := Prod.mk.inj heq
      obtain ⟨hv, hr⟩ := he (ht.of_subset hspace.subset) hi
      exact ⟨.arr hv, hr.trans hspace⟩
  · split at h
    · rename_i found hw
      obtain rfl := Except.ok.inj h
      obtain ⟨hv, hr⟩ := exists_word_of_word? hw
      exact ⟨hv room, hr⟩
    · split at h
      · obtain ⟨hv, hr⟩ := fits_of_number h
        exact ⟨hv, hr.trans (List.suffix_cons _ _)⟩
      · exact fits_of_number h

theorem readsMembers_succ (hv : ReadsValues fuel) (hm : ReadsMembers fuel) :
    ReadsMembers (fuel + 1) := by
  intro room t r seen fields ht hn hs h
  rw [members.eq_def] at h
  dsimp only at h
  split at h
  · rename_i u
    have hu : Encodable u := ht.of_subset (List.subset_cons_self _ u)
    split at h
    · simp at h
    · rename_i key w hkey
      have hread := stringRead_of_stringBody hu hkey
      have hw : skipSpace w <:+ u := (suffix_skipSpace w).trans hread.suffix
      split at h
      · rename_i x hx
        have hx : skipSpace x <:+ u :=
          (suffix_skipSpace x).trans ((List.suffix_cons _ _).trans (hx ▸ hw))
        split at h
        · simp at h
        · rename_i v y hy
          obtain ⟨hfits, hys⟩ := hv (hu.of_subset hx.subset) hy
          have hy : skipSpace y <:+ .char '"' :: u :=
            (((suffix_skipSpace y).trans hys).trans hx).trans (List.suffix_cons _ _)
          have hnames : FieldNames (setField key v seen) := hn.setField hread.joined
          have hfields : ∀ f ∈ setField key v seen, Fits room f.2 := by
            intro f hf
            rcases mem_setField hf with rfl | hf
            · exact hfits
            · exact hs f hf
          split at h
          · rename_i z hz
            have hz : skipSpace z <:+ .char '"' :: u :=
              (suffix_skipSpace z).trans ((List.suffix_cons _ _).trans (hz ▸ hy))
            obtain ⟨hn', hf', hr'⟩ := hm (ht.of_subset hz.subset) hnames hfields h
            exact ⟨hn', hf', hr'.trans hz⟩
          · rename_i z hz
            obtain ⟨rfl, rfl⟩ := Prod.mk.inj (Except.ok.inj h)
            exact ⟨hnames, hfields, (List.suffix_cons _ _).trans (hz ▸ hy)⟩
          · simp at h
      · simp at h
  · simp at h

theorem readsElements_succ (hv : ReadsValues fuel) (he : ReadsElements fuel) :
    ReadsElements (fuel + 1) := by
  intro room t r items ht h
  rw [elements.eq_def] at h
  dsimp only at h
  split at h
  · simp at h
  · rename_i v y hy
    obtain ⟨hfits, hys⟩ := hv ht hy
    have hy : skipSpace y <:+ t := (suffix_skipSpace y).trans hys
    split at h
    · rename_i z hz
      have hz : skipSpace z <:+ t := (suffix_skipSpace z).trans ((List.suffix_cons _ _).trans (hz ▸ hy))
      obtain ⟨⟨items', w⟩, hi, heq⟩ := exists_of_map_eq_ok h
      obtain ⟨rfl, rfl⟩ := Prod.mk.inj heq
      obtain ⟨hv', hr'⟩ := he (ht.of_subset hz.subset) hi
      exact ⟨List.forall_mem_cons.mpr ⟨hfits, hv'⟩, hr'.trans hz⟩
    · rename_i z hz
      obtain ⟨rfl, rfl⟩ := Prod.mk.inj (Except.ok.inj h)
      exact ⟨List.forall_mem_cons.mpr ⟨hfits, by simp⟩, (List.suffix_cons _ _).trans (hz ▸ hy)⟩
    · simp at h

theorem reads (fuel : Nat) : ReadsValues fuel ∧ ReadsMembers fuel ∧ ReadsElements fuel := by
  induction fuel with
  | zero =>
    refine ⟨?_, ?_, ?_⟩
    · intro room t r v _ h
      simp [value] at h
    · intro room t r seen fields _ _ _ h
      simp [members] at h
    · intro room t r items _ h
      simp [elements] at h
  | succ fuel ih =>
    obtain ⟨hv, hm, he⟩ := ih
    exact ⟨readsValues_succ hm he, readsMembers_succ hv hm, readsElements_succ hv he⟩

/-- What is read from an encoded text is within the bounds of the reader. -/
theorem fits_of_parse {nesting : Nat} (ht : Encodable t) (h : parse nesting t = .ok v) :
    Fits (nesting + 1) v := by
  rw [parse] at h
  split at h
  · simp at h
  · rename_i u r hu
    split_ifs at h
    obtain rfl := Except.ok.inj h
    exact ((reads _).1 (ht.of_subset (suffix_skipSpace t).subset) hu).1

end CSharpActions.Json
