import CSharpActions.Proofs.Declaration.Detection

/-!
# What the readers of a declaration take

Each reader takes a stretch off the beginning of a text: a run of characters of one kind, which
goes on as long as it can, a keyword with the blanks after it, or modifiers.
-/
namespace CSharpActions

namespace Text

/-- Some characters, all of them of one kind. -/
def IsRun (p : CodePoint → Bool) (w : Text) : Prop := w ≠ [] ∧ ∀ c ∈ w, p c = true

/-- The text does not go on with a character of the kind. -/
def Ends (p : CodePoint → Bool) (t : Text) : Prop := ∀ c, t.head? = some c → p c = false

variable {p : CodePoint → Bool} {t r w : Text} {c : CodePoint}

@[simp] theorem ends_cons : Ends p (c :: t) ↔ p c = false := by simp [Ends]

theorem ends_append_of_ne_nil (h : w ≠ []) : Ends p (w ++ t) ↔ Ends p w := by
  obtain ⟨c, w, rfl⟩ := List.exists_cons_of_ne_nil h
  simp

theorem IsRun.ends {q : CodePoint → Bool} (h : IsRun q w) (hpq : ∀ c, q c = true → p c = false)
    (t : Text) : Ends p (w ++ t) := by
  obtain ⟨c, w, rfl⟩ := List.exists_cons_of_ne_nil h.1
  exact ends_cons.mpr (hpq c (h.2 c List.mem_cons_self))

theorem ends_dropWhile (p : CodePoint → Bool) (t : Text) : Ends p (t.dropWhile p) :=
  fun _ => false_of_head?_dropWhile

theorem dropWhile_eq_iff : t.dropWhile p = r ↔
    ∃ w, (∀ c ∈ w, p c = true) ∧ t = w ++ r ∧ Ends p r := by
  constructor
  · rintro rfl
    exact ⟨t.takeWhile p, fun _ => List.mem_takeWhile_imp, List.takeWhile_append_dropWhile.symm,
      ends_dropWhile p t⟩
  · rintro ⟨w, hw, rfl, hr⟩
    exact dropWhile_append_of_head? hw hr

theorem blanks?_eq_some_iff : blanks? t = some r ↔
    ∃ gap, IsRun isBlank gap ∧ t = gap ++ r ∧ Ends isBlank r := by
  constructor
  · intro h
    obtain ⟨c, bs, hbs, rfl⟩ := exists_of_blanks? h
    obtain ⟨hc, -⟩ := List.forall_mem_cons.mp hbs
    rw [blanks?, if_pos hc] at h
    exact ⟨c :: bs, ⟨by simp, hbs⟩, rfl, Option.some.inj h ▸ ends_dropWhile isBlank _⟩
  · rintro ⟨gap, ⟨hne, hgap⟩, rfl, hr⟩
    obtain ⟨c, bs, rfl⟩ := List.exists_cons_of_ne_nil hne
    obtain ⟨hc, hbs⟩ := List.forall_mem_cons.mp hgap
    rw [List.cons_append, blanks?, if_pos hc, dropWhile_append_of_head? hbs hr]

end Text

namespace ClassDecl

open Text (IsRun Ends isBlank isWord)

variable {t r w v : Text} {ws : List Text}

theorem keyword?_eq_some_iff : keyword? w t = some r ↔
    ∃ gap, IsRun isBlank gap ∧ t = w ++ (gap ++ r) ∧ Ends isBlank r := by
  rw [keyword?, Option.bind_eq_some_iff]
  simp only [Text.after?_eq_some_iff, Text.blanks?_eq_some_iff]
  constructor
  · rintro ⟨s, rfl, gap, hgap, rfl, hr⟩
    exact ⟨gap, hgap, rfl, hr⟩
  · rintro ⟨gap, hgap, rfl, hr⟩
    exact ⟨gap ++ r, rfl, gap, hgap, rfl, hr⟩

/-- A text begins with one keyword at most. -/
theorem eq_of_keyword? {s : Text} (hw : ∀ c ∈ w, isBlank c = false)
    (hv : ∀ c ∈ v, isBlank c = false) (h : keyword? w t = some r) (h' : keyword? v t = some s) :
    w = v := by
  have htake : ∀ {w r : Text}, (∀ c ∈ w, isBlank c = false) → keyword? w t = some r →
      t.takeWhile (!isBlank ·) = w := by
    intro w r hw h
    obtain ⟨gap, ⟨hne, hgap⟩, rfl, -⟩ := keyword?_eq_some_iff.mp h
    obtain ⟨c, gap, rfl⟩ := List.exists_cons_of_ne_nil hne
    refine Text.takeWhile_append_of_head? (by simpa using hw) fun x hx => ?_
    obtain rfl := Option.some.inj (hx : some c = some x)
    simp [hgap c List.mem_cons_self]
  exact (htake hw h).symm.trans (htake hv h')

theorem anyKeyword?_eq_some_iff (hws : ws ⊆ accessModifiers ++ furtherModifiers) :
    anyKeyword? ws t = some (w, r) ↔ w ∈ ws ∧ keyword? w t = some r := by
  refine ⟨fun h => ⟨mem_of_anyKeyword? h, keyword?_of_anyKeyword? h⟩, ?_⟩
  rintro ⟨hw, h⟩
  have hblank : ∀ {w}, w ∈ ws → ∀ c ∈ w, isBlank c = false :=
    fun hw c hc => ((forall_of_mem_modifiers (hws hw)).2 c hc).1
  cases hany : anyKeyword? ws t with
  | none =>
    have hnone := List.findSome?_eq_none_iff.mp hany w hw
    rw [h] at hnone
    simp at hnone
  | some found =>
    obtain ⟨v, s⟩ := found
    have hs := keyword?_of_anyKeyword? hany
    obtain rfl := eq_of_keyword? (hblank hw) (hblank (mem_of_anyKeyword? hany)) h hs
    rw [Option.some.inj (h.symm.trans hs)]

/-- Any number of further modifiers, each with blanks after it. -/
inductive Modifiers : Text → Prop
  | nil : Modifiers []
  | cons {w gap ms : Text} (mem : w ∈ furtherModifiers) (blank : IsRun isBlank gap)
      (rest : Modifiers ms) : Modifiers (w ++ (gap ++ ms))

theorem Modifiers.ends {ms : Text} (h : Modifiers ms) (hr : Ends isBlank r) :
    Ends isBlank (ms ++ r) := by
  cases h with
  | nil => exact hr
  | @cons w gap ms mem blank rest =>
    obtain ⟨hne, hw⟩ := forall_of_mem_modifiers (List.mem_append_right accessModifiers mem)
    rw [List.append_assoc, Text.ends_append_of_ne_nil hne]
    exact fun c hc => (hw c (List.mem_of_head? hc)).1

theorem exists_modifiers (t : Text) : ∃ ms, Modifiers ms ∧ t = ms ++ skipModifiers t := by
  fun_induction skipModifiers t with
  | case1 t w r h ih =>
    obtain ⟨ms, hms, hr⟩ := ih
    obtain ⟨hw, hk⟩ := (anyKeyword?_eq_some_iff (List.subset_append_right _ _)).mp h
    obtain ⟨gap, hgap, rfl, -⟩ := keyword?_eq_some_iff.mp hk
    refine ⟨w ++ (gap ++ ms), .cons hw hgap hms, ?_⟩
    conv_lhs => rw [hr]
    simp only [List.append_assoc]
  | case2 t h => exact ⟨[], .nil, rfl⟩

/-- Modifiers are skipped up to a text that goes on with something else. -/
theorem skipModifiers_append {ms : Text} (h : Modifiers ms) (hr : Ends isBlank r)
    (hnone : anyKeyword? furtherModifiers r = none) : skipModifiers (ms ++ r) = r := by
  have hstop : skipModifiers r = r := by
    rw [skipModifiers]
    split
    · rename_i h
      rw [hnone] at h
      simp at h
    · rfl
  induction h with
  | nil => exact hstop
  | @cons w gap ms mem blank rest ih =>
    have hany : anyKeyword? furtherModifiers (w ++ (gap ++ ms) ++ r) = some (w, ms ++ r) :=
      (anyKeyword?_eq_some_iff (List.subset_append_right _ _)).mpr
        ⟨mem, keyword?_eq_some_iff.mpr ⟨gap, blank, by simp, rest.ends hr⟩⟩
    rw [skipModifiers]
    split
    · rename_i h
      obtain ⟨rfl, rfl⟩ := Prod.mk.inj (Option.some.inj (hany.symm.trans h))
      exact ih
    · rename_i h
      rw [hany] at h
      simp at h

end ClassDecl

namespace PropertyDecl

open Text (IsRun Ends isBlank)

variable {p : CodePoint → Bool} {t r w : Text}

theorem run?_eq_some_iff : run? p t = some (w, r) ↔ IsRun p w ∧ t = w ++ r ∧ Ends p r := by
  constructor
  · intro h
    have hw := forall_of_run? h
    unfold run? at h
    dsimp only at h
    split at h
    · simp at h
    · rename_i hne
      obtain ⟨rfl, rfl⟩ := Prod.mk.inj (Option.some.inj h)
      exact ⟨⟨by simpa using hne, hw⟩, List.takeWhile_append_dropWhile.symm,
        Text.ends_dropWhile p t⟩
  · rintro ⟨⟨hne, hw⟩, rfl, hr⟩
    exact run?_append hne hw hr

theorem symbol?_eq_some_iff (hne : w ≠ []) (hw : Ends isBlank w) : symbol? w t = some r ↔
    ∃ bs, (∀ x ∈ bs, isBlank x = true) ∧ t = bs ++ (w ++ r) := by
  rw [symbol?, Text.after?_eq_some_iff, Text.dropWhile_eq_iff]
  constructor
  · rintro ⟨bs, hbs, ht, -⟩
    exact ⟨bs, hbs, ht⟩
  · rintro ⟨bs, hbs, ht⟩
    exact ⟨bs, hbs, ht, (Text.ends_append_of_ne_nil hne).mpr hw⟩

end PropertyDecl

end CSharpActions
