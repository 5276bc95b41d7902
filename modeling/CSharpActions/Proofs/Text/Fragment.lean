import CSharpActions.Text.Blank
import Mathlib.Data.List.DropRight

/-!
# Fragments of a text

What trimming leaves of a text, and where a fragment can stand in a text that is put together
from parts.
-/
namespace CSharpActions.Text

theorem occursIn_iff_infix {p t : Text} : occursIn p t = true ↔ p <:+: t := by
  rw [occursIn_iff]
  constructor
  · rintro ⟨a, b, h⟩
    exact ⟨a, b, h.symm⟩
  · rintro ⟨a, b, h⟩
    exact ⟨a, b, h.symm⟩

/-- A fragment without the character `x` stands on one side of it. -/
theorem infix_append_cons_iff {p a b : Text} {x : CodePoint} (hx : x ∉ p) :
    p <:+: a ++ x :: b ↔ p <:+: a ∨ p <:+: b := by
  constructor
  · intro h
    rcases List.infix_append_iff.mp h with h | h | ⟨p₁, p₂, rfl, h₁, h₂⟩
    · exact Or.inl h
    · rcases List.infix_cons_iff.mp h with h | h
      · cases p with
        | nil => exact Or.inl (List.nil_infix)
        | cons c p =>
          obtain ⟨rfl, _⟩ := List.cons_prefix_cons.mp h
          simp at hx
      · exact Or.inr h
    · cases p₂ with
      | nil => exact Or.inl (by simpa using h₁.isInfix)
      | cons c p₂ =>
        obtain ⟨rfl, _⟩ := List.cons_prefix_cons.mp h₂
        simp at hx
  · rintro (h | h)
    · exact h.trans (List.infix_append_left)
    · exact h.trans ((List.suffix_cons x b).isInfix.trans (List.infix_append_right))

/-- A fragment that does not end in `x` does not reach an `x` at the end. -/
theorem infix_concat_iff_of_getLast? {p a : Text} {x : CodePoint} (hp : p ≠ [])
    (hx : p.getLast? ≠ some x) : p <:+: a ++ [x] ↔ p <:+: a := by
  rw [List.infix_concat_iff]
  constructor
  · rintro (h | h)
    · obtain ⟨s, hs⟩ := h
      have hl := congrArg List.getLast? hs
      rw [List.getLast?_append_of_ne_nil s hp] at hl
      simp [hl] at hx
    · exact h
  · exact Or.inr

/-- A fragment that does not begin with a character of `q` stands behind all of them. -/
theorem infix_append_iff_of_head? {p ws r : Text} {q : CodePoint → Bool} (hp : p ≠ [])
    (hq : ∀ c, p.head? = some c → q c = false) (hw : ∀ c ∈ ws, q c = true) :
    p <:+: ws ++ r ↔ p <:+: r := by
  induction ws with
  | nil => simp
  | cons c ws ih =>
    have ih := ih fun d hd => hw d (List.mem_cons_of_mem c hd)
    rw [List.cons_append, List.infix_cons_iff, ih]
    constructor
    · rintro (h | h)
      · cases p with
        | nil => exact absurd rfl hp
        | cons d p =>
          obtain ⟨rfl, _⟩ := List.cons_prefix_cons.mp h
          have h₁ := hq d rfl
          have h₂ := hw d List.mem_cons_self
          simp [h₁] at h₂
      · exact h
    · exact Or.inr

theorem not_mem_intercalate {x : CodePoint} {sep : Text} {parts : List Text} (hs : x ∉ sep)
    (hp : ∀ part ∈ parts, x ∉ part) : x ∉ List.intercalate sep parts := by
  induction parts with
  | nil => simp [List.intercalate]
  | cons part parts ih =>
    have ih := ih fun y hy => hp y (List.mem_cons_of_mem part hy)
    have hh := hp part List.mem_cons_self
    cases parts with
    | nil => simpa [List.intercalate] using hh
    | cons next parts =>
      simp only [List.intercalate, List.intersperse_cons_cons, List.flatten_cons,
        List.mem_append, not_or] at ih ⊢
      exact ⟨hh, hs, ih⟩

theorem dropEndWhile_eq_rdropWhile (p : CodePoint → Bool) (t : Text) :
    dropEndWhile p t = t.rdropWhile p := by
  induction t with
  | nil => rfl
  | cons c r ih =>
    rw [dropEndWhile, ih, List.rdropWhile, List.rdropWhile, List.reverse_cons,
      List.dropWhile_append]
    cases h : List.dropWhile p r.reverse with
    | nil => by_cases hc : p c <;> simp [hc]
    | cons d s => simp

theorem trim_eq (t : Text) : trim t = (t.dropWhile isBlank).rdropWhile isBlank :=
  dropEndWhile_eq_rdropWhile _ _

theorem trim_blank_append {ws t : Text} (h : ∀ c ∈ ws, isBlank c = true) :
    trim (ws ++ t) = trim t := by
  rw [trim_eq, trim_eq, List.dropWhile_append_of_pos h]

theorem trim_append_blank {t ws : Text} (h : ∀ c ∈ ws, isBlank c = true) :
    trim (t ++ ws) = trim t := by
  have hr : ∀ s : Text, (s ++ ws).rdropWhile isBlank = s.rdropWhile isBlank := by
    intro s
    rw [List.rdropWhile, List.reverse_append, List.dropWhile_append_of_pos (by simpa using h),
      List.rdropWhile]
  rw [trim_eq, trim_eq, List.dropWhile_append]
  cases hd : t.dropWhile isBlank with
  | nil => simpa [List.rdropWhile_eq_nil_iff] using fun c hc => h c (List.dropWhile_subset _ hc)
  | cons c s => simpa using hr (c :: s)

theorem trim_infix (t : Text) : trim t <:+: t := by
  rw [trim_eq]
  exact (List.rdropWhile_prefix _ _).isInfix.trans (List.dropWhile_suffix _).isInfix

theorem trim_eq_nil_iff {t : Text} : trim t = [] ↔ ∀ c ∈ t, isBlank c = true := by
  rw [trim_eq, List.rdropWhile_eq_nil_iff]
  constructor
  · intro h
    rw [← List.takeWhile_append_dropWhile (p := isBlank) (l := t)]
    intro c hc
    rcases List.mem_append.mp hc with hc | hc
    · exact List.mem_takeWhile_imp hc
    · exact h c hc
  · intro h c hc
    exact h c ((List.dropWhile_suffix _).subset hc)

section Run

variable {p : CodePoint → Bool} {t : Text} {c : CodePoint}

theorem false_of_head?_dropWhile (h : (t.dropWhile p).head? = some c) : p c = false := by
  have hnot := List.head?_dropWhile_not p t
  rw [h] at hnot
  simpa using hnot

theorem false_of_getLast?_rdropWhile (h : (t.rdropWhile p).getLast? = some c) : p c = false := by
  have hne : t.rdropWhile p ≠ [] := by
    rintro he
    simp [he] at h
  have hlast := List.rdropWhile_last_not p t hne
  rw [List.getLast?_eq_some_getLast hne, Option.some.injEq] at h
  rw [h] at hlast
  simpa using hlast

end Run

theorem isBlank_of_head?_trim {t : Text} {c : CodePoint} (h : (trim t).head? = some c) :
    isBlank c = false := by
  have hp := List.rdropWhile_prefix isBlank (t.dropWhile isBlank)
  rw [← trim_eq] at hp
  obtain ⟨r, hr⟩ := hp
  cases ht : trim t with
  | nil => simp [ht] at h
  | cons d s =>
    rw [ht, List.head?_cons, Option.some.injEq] at h
    subst h
    exact false_of_head?_dropWhile (t := t) (by rw [← hr, ht]; rfl)

theorem isBlank_of_getLast?_trim {t : Text} {c : CodePoint} (h : (trim t).getLast? = some c) :
    isBlank c = false := by
  rw [trim_eq] at h
  exact false_of_getLast?_rdropWhile h

theorem trim_eq_self {t : Text} (hhead : ∀ c, t.head? = some c → isBlank c = false)
    (hlast : ∀ c, t.getLast? = some c → isBlank c = false) : trim t = t := by
  have hdrop : t.dropWhile isBlank = t := by
    cases t with
    | nil => rfl
    | cons c t => rw [List.dropWhile_cons_of_neg (by simp [hhead c rfl])]
  rw [trim_eq, hdrop, List.rdropWhile_eq_self_iff]
  intro hne
  simp [hlast _ (List.getLast?_eq_some_getLast hne)]

end CSharpActions.Text
