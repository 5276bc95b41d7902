import CSharpActions.Text.Basic

/-!
# The first place of a text

A search finds something at the least index at which its reader accepts what follows, and fails if
there is no such index.
-/
namespace CSharpActions.Text

variable {α : Type} {f : Text → Option α} {t : Text} {i : Nat} {a : α}

theorem leftmost?_eq_none_iff :
    leftmost? f t = none ↔ ∀ j ≤ t.length, f (t.drop j) = none := by
  induction t with
  | nil => simp [leftmost?]
  | cons c r ih =>
    rw [leftmost?]
    constructor
    · intro h j hj
      split at h
      · simp at h
      · rename_i hc
        cases j with
        | zero => exact hc
        | succ j => exact ih.mp (Option.map_eq_none_iff.mp h) j (by simpa using hj)
    · intro h
      have hc : f (c :: r) = none := h 0 (Nat.zero_le _)
      rw [hc]
      exact Option.map_eq_none_iff.mpr (ih.mpr fun j hj => h (j + 1) (by simpa using hj))

theorem leftmost?_eq_some_iff : leftmost? f t = some (i, a) ↔
    i ≤ t.length ∧ f (t.drop i) = some a ∧ ∀ j < i, f (t.drop j) = none := by
  refine ⟨leftmost?_eq_some, ?_⟩
  rintro ⟨hi, ha, hleast⟩
  cases h : leftmost? f t with
  | none =>
    rw [leftmost?_eq_none_iff.mp h i hi] at ha
    simp at ha
  | some found =>
    obtain ⟨j, b⟩ := found
    obtain ⟨-, hb, hleast'⟩ := leftmost?_eq_some h
    -- neither index is smaller than the other
    obtain hji | rfl | hij := Nat.lt_trichotomy j i
    · rw [hleast j hji] at hb
      simp at hb
    · rw [Option.some.inj (hb.symm.trans ha)]
    · rw [hleast' i hij] at ha
      simp at ha

section Accepted

variable {accepted : Text → Prop} (hf : ∀ t, f t = none ↔ ¬accepted t)
include hf

/-- Something is found exactly in a text of which the reader accepts some ending. -/
theorem exists_leftmost?_iff : (∃ found, leftmost? f t = some found) ↔
    ∃ i, accepted (t.drop i) := by
  constructor
  · rintro ⟨⟨i, a⟩, h⟩
    refine ⟨i, Classical.not_not.mp fun hn => ?_⟩
    have ha := (leftmost?_eq_some h).2.1
    rw [(hf _).mpr hn] at ha
    simp at ha
  · rintro ⟨i, hi⟩
    cases h : leftmost? f t with
    | some found => exact ⟨found, rfl⟩
    | none =>
      have hdrop : t.drop (min i t.length) = t.drop i := by
        rcases Nat.le_total i t.length with hle | hle
        · rw [Nat.min_eq_left hle]
        · rw [Nat.min_eq_right hle, List.drop_length, List.drop_eq_nil_of_le hle]
      have hnone := leftmost?_eq_none_iff.mp h _ (Nat.min_le_right i t.length)
      rw [hdrop] at hnone
      exact absurd hi ((hf _).mp hnone)

theorem leftmost?_eq_some_iff_accepted (hnil : ¬accepted []) : leftmost? f t = some (i, a) ↔
    f (t.drop i) = some a ∧ ∀ j < i, ¬accepted (t.drop j) := by
  rw [leftmost?_eq_some_iff]
  constructor
  · rintro ⟨-, ha, hleast⟩
    exact ⟨ha, fun j hj => (hf _).mp (hleast j hj)⟩
  · rintro ⟨ha, hleast⟩
    refine ⟨?_, ha, fun j hj => (hf _).mpr (hleast j hj)⟩
    rcases Nat.le_total i t.length with hle | hle
    · exact hle
    · rw [List.drop_eq_nil_of_le hle, (hf []).mpr hnil] at ha
      simp at ha

end Accepted

/-- Something is found exactly in a text of which some stretch is accepted. -/
theorem exists_map_leftmost?_iff {β : Type} {p : Text → Prop}
    (hf : ∀ t, f t = none ↔ ¬∃ s, p s ∧ s <+: t) (g : Nat × α → β) :
    (∃ b, (leftmost? f t).map g = some b) ↔ ∃ s, p s ∧ s <:+: t := by
  have hplace : (∃ i, ∃ s, p s ∧ s <+: t.drop i) ↔ ∃ s, p s ∧ s <:+: t := by
    constructor
    · rintro ⟨i, s, hs, hp⟩
      exact ⟨s, hs, hp.isInfix.trans (List.drop_suffix i t).isInfix⟩
    · rintro ⟨s, hs, u, v, rfl⟩
      refine ⟨u.length, s, hs, v, ?_⟩
      rw [List.append_assoc, List.drop_left]
  rw [← hplace, ← exists_leftmost?_iff hf]
  constructor
  · rintro ⟨b, h⟩
    obtain ⟨found, hl, -⟩ := Option.map_eq_some_iff.mp h
    exact ⟨found, hl⟩
  · rintro ⟨found, hl⟩
    exact ⟨g found, by rw [hl, Option.map_some]⟩

end CSharpActions.Text
