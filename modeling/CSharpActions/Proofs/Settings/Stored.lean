import CSharpActions.Proofs.Json.RoundTrip
import CSharpActions.Proofs.Settings.Layers

/-!
# Values of settings in the configuration file

A converted value is stored so that it is read and converted back to itself. The order of fields in
a stored value shows in a text only.
-/
namespace CSharpActions.Setting

open Json (exists_of_map_eq_ok)

variable {s : Setting} {raw : Json} {v : Value} {value : Text} {room : Nat}

theorem floatFree_toJson (v : Value) : Json.FloatFree v.toJson := by
  cases v with
  | int n => exact .int n
  | bool b => exact .bool b
  | text t => exact .str t

theorem eq_toJson_of_sorted (h : raw.sorted = v.toJson.sorted) : raw = v.toJson := by
  cases v <;> cases raw <;> simp_all [Value.toJson, Json.sorted]

/-! ## Converting twice -/

theorem bounds_of_coerceTabSize {n : Int} (h : coerceTabSize raw = .ok n) : 1 ≤ n ∧ n ≤ 16 := by
  have hvalid : tabSize.valid? raw = some (.int n) := by rw [valid?, coerce, h]; rfl
  obtain ⟨m, hm, hbounds⟩ := exists_of_valid?_tabSize hvalid
  rwa [Value.int.inj hm]

/-- A converted value is converted to itself. -/
theorem valid?_toJson (h : s.coerce raw = .ok v) : s.valid? v.toJson = some v := by
  cases s with
  | tabSize =>
    obtain ⟨n, hn, rfl⟩ := exists_of_map_eq_ok h
    have hbounds := bounds_of_coerceTabSize hn
    have hrange : ¬(decide (n < 1) || decide (16 < n)) = true := by
      simp only [Bool.or_eq_true, decide_eq_true_eq]
      omega
    simp only [valid?, coerce, coerceTabSize, Value.toJson, integerOf, if_neg hrange]
    rfl
  | useThis =>
    obtain ⟨b, -, rfl⟩ := exists_of_map_eq_ok h
    rfl
  | privatePrefix =>
    obtain rfl := Except.ok.inj h
    rfl
  | reformat =>
    obtain ⟨b, -, rfl⟩ := exists_of_map_eq_ok h
    rfl

/-- What is stored for a given text is within the bounds of JSON texts. -/
theorem fits_toJson (hj : value.Joined) (h : s.coerce (.str value) = .ok v) :
    Json.Fits room v.toJson := by
  cases s with
  | tabSize =>
    obtain ⟨n, hn, rfl⟩ := exists_of_map_eq_ok h
    have hbounds := bounds_of_coerceTabSize hn
    exact .int (Text.readable_of_lt (k := 2) (by omega) (by decide))
  | useThis =>
    obtain ⟨b, -, rfl⟩ := exists_of_map_eq_ok h
    exact .bool b
  | privatePrefix =>
    obtain rfl := Except.ok.inj h
    exact .str hj
  | reformat =>
    obtain ⟨b, -, rfl⟩ := exists_of_map_eq_ok h
    exact .bool b

/-! ## Order of fields -/

theorem exists_trim_cons {c : CodePoint} (hc : Text.isBlank c = false) (t : Text) :
    ∃ r, Text.trim (c :: t) = c :: r := by
  rw [Text.trim, List.dropWhile_cons_of_neg (by simp [hc]), Text.dropEndWhile]
  split
  · exact ⟨[], by simp [hc]⟩
  · exact ⟨_, rfl⟩

/-- No word for a truth value begins with a bracket. -/
theorem coerceBool_of_plainText {c : CodePoint} {t : Text} (hp : raw.plainText = c :: t)
    (hc : c = .char '[' ∨ c = .char '\x7b') (hb : ∀ b, raw ≠ .bool b) :
    coerceBool s raw = .error (.notBoolean s raw) := by
  have hblank : Text.isBlank c = false := by rcases hc with rfl | rfl <;> decide
  obtain ⟨r, hr⟩ := exists_trim_cons hblank t
  have hword : ∀ words : List Text, (∀ w ∈ words, w.head? ≠ some c.toLower) →
      words.contains ((Text.trim raw.plainText).map CodePoint.toLower) = false := by
    intro words hwords
    rw [← Bool.not_eq_true, List.contains_iff_mem, hp, hr]
    exact fun hmem => hwords _ hmem rfl
  have htrue : ∀ w ∈ trueWords, w.head? ≠ some c.toLower := by rcases hc with rfl | rfl <;> decide
  have hfalse : ∀ w ∈ falseWords, w.head? ≠ some c.toLower := by rcases hc with rfl | rfl <;> decide
  unfold coerceBool
  split
  · exact absurd rfl (hb _)
  · simp only [hword _ htrue, hword _ hfalse, Bool.false_eq_true, if_false]

theorem valid?_eq_none_of_plainText {c : CodePoint} {t : Text} (hp : raw.plainText = c :: t)
    (hc : c = .char '[' ∨ c = .char '\x7b') (hb : ∀ b, raw ≠ .bool b)
    (ht : tabSize.valid? raw = none) (hs : s ≠ .privatePrefix) : s.valid? raw = none := by
  cases s with
  | tabSize => exact ht
  | useThis =>
    change ((coerceBool .useThis raw).map Value.bool).toOption = none
    rw [coerceBool_of_plainText hp hc hb]
    rfl
  | privatePrefix => exact absurd rfl hs
  | reformat =>
    change ((coerceBool .reformat raw).map Value.bool).toOption = none
    rw [coerceBool_of_plainText hp hc hb]
    rfl

theorem valid?_arr (items : List Json) (hs : s ≠ .privatePrefix) : s.valid? (.arr items) = none :=
  valid?_eq_none_of_plainText rfl (Or.inl rfl) (fun _ => Json.noConfusion) rfl hs

theorem valid?_obj (fields : List (Text × Json)) (hs : s ≠ .privatePrefix) :
    s.valid? (.obj fields) = none :=
  valid?_eq_none_of_plainText rfl (Or.inr rfl) (fun _ => Json.noConfusion) rfl hs

/-- For a number or a truth value the order of fields does not matter. -/
theorem valid?_sorted (raw : Json) (hs : s ≠ .privatePrefix) :
    s.valid? raw.sorted = s.valid? raw := by
  cases raw with
  | arr items => rw [Json.sorted_arr, valid?_arr _ hs, valid?_arr _ hs]
  | obj fields => rw [Json.sorted_obj, valid?_obj _ hs, valid?_obj _ hs]
  | null => rfl
  | bool b => rfl
  | int n => rfl
  | float x => rfl
  | str t => rfl

end CSharpActions.Setting
