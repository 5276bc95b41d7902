import CSharpActions.Text.Size
import Mathlib.Data.Set.Basic

/-!
# Texts that can be built

Whether a text can be built depends on its length alone. Where several texts are built one after
another, the outcome is the same as without a bound if all of them can be built, and a failure for
lack of room if not.
-/
namespace CSharpActions

namespace Text

variable {room : Room} {size : Nat} {count : Int}

/-- A text of the given length can be built. -/
def Fits (room : Room) (size : Nat) : Prop :=
  ∀ most ∈ room, size ≤ most ∧ (size : Int) < wordBound

instance (room : Room) (size : Nat) : Decidable (Fits room size) :=
  inferInstanceAs (Decidable (∀ most ∈ room, _))

/-- Copies of a text of the given length can be put together. -/
def FitsCopies (room : Room) (size : Nat) (count : Int) : Prop :=
  ∀ most ∈ room, (-wordBound ≤ count ∧ count < wordBound) ∧ Fits (some most) (size * count.toNat)

theorem fits_some {most : Nat} :
    Fits (some most) size ↔ size ≤ most ∧ (size : Int) < wordBound := by
  simp [Fits]

theorem fits_none (size : Nat) : Fits none size := nofun

theorem sizeError?_eq_none_iff : sizeError? room size = none ↔ Fits room size := by
  cases room with
  | none => simp [Fits]
  | some most =>
    rw [fits_some, sizeError?, Option.bind_some]
    split_ifs <;> simp <;> omega

theorem copiesError?_eq_none_iff :
    copiesError? room size count = none ↔ FitsCopies room size count := by
  cases room with
  | none => simp [FitsCopies]
  | some most =>
    have hcopies : FitsCopies (some most) size count ↔
        (-wordBound ≤ count ∧ count < wordBound) ∧ Fits (some most) (size * count.toNat) := by
      simp [FitsCopies]
    rw [hcopies, copiesError?, Option.bind_some, ← sizeError?_eq_none_iff]
    split
    · rename_i hword
      rw [Bool.or_eq_true, decide_eq_true_iff, decide_eq_true_iff] at hword
      simp only [reduceCtorEq, false_iff]
      omega
    · rename_i hword
      rw [Bool.or_eq_true, decide_eq_true_iff, decide_eq_true_iff] at hword
      exact ⟨fun h => ⟨by omega, h⟩, And.right⟩

theorem firstError?_eq_none_iff {texts : List Text} :
    firstError? room texts = none ↔ ∀ t ∈ texts, Fits room t.length := by
  simp only [firstError?, List.findSome?_eq_none_iff, sizeError?_eq_none_iff]

end Text

/-- The outcome is the given one if all that has to be built can be built, and else it fails for
lack of room. -/
structure Yields {ε α : Type} (size : Text.SizeError → ε) (outcome : Except ε α) (builds : Prop)
    (a : α) : Prop where
  ok : builds → outcome = .ok a
  error : ¬ builds → ∃ e, outcome = .error (size e)

namespace Yields

variable {ε α β : Type} {size : Text.SizeError → ε} {outcome : Except ε α} {P Q : Prop} {a : α}

theorem of_eq (h : outcome = .ok a) : Yields size outcome True a :=
  ⟨fun _ => h, fun hn => absurd trivial hn⟩

theorem congr (h : Yields size outcome P a) (hpq : P ↔ Q) : Yields size outcome Q a :=
  ⟨fun hq => h.ok (hpq.mpr hq), fun hq => h.error (mt hpq.mp hq)⟩

theorem of_check {check : Option Text.SizeError} (hp : check = none ↔ P)
    (hn : check = none → outcome = .ok a) (he : ∀ e, check = some e → outcome = .error (size e)) :
    Yields size outcome P a := by
  refine ⟨fun h => hn (hp.mpr h), fun h => ?_⟩
  obtain ⟨e, hcheck⟩ := Option.ne_none_iff_exists'.mp (mt hp.mp h)
  exact ⟨e, he e hcheck⟩

theorem bind {f : α → Except ε β} {b : β} (h : Yields size outcome P a)
    (hf : Yields size (f a) Q b) :
    Yields size (outcome.bind f) (P ∧ Q) b := by
  constructor
  · rintro ⟨hp, hq⟩
    rw [h.ok hp]
    exact hf.ok hq
  · intro hn
    by_cases hp : P
    · rw [h.ok hp]
      exact hf.error fun hq => hn ⟨hp, hq⟩
    · obtain ⟨e, he⟩ := h.error hp
      exact ⟨e, by rw [he]; rfl⟩

theorem mapError {ε' : Type} (h : Yields size outcome P a) (f : ε → ε') :
    Yields (f ∘ size) (outcome.mapError f) P a := by
  constructor
  · intro hp
    rw [h.ok hp]
    rfl
  · intro hp
    obtain ⟨e, he⟩ := h.error hp
    exact ⟨e, by rw [he]; rfl⟩

theorem map (h : Yields size outcome P a) (f : α → β) : Yields size (outcome.map f) P (f a) := by
  constructor
  · intro hp
    rw [h.ok hp]
    rfl
  · intro hp
    obtain ⟨e, he⟩ := h.error hp
    exact ⟨e, by rw [he]; rfl⟩

theorem mapM {l : List α} {f : α → Except ε β} {g : α → β} {R : α → Prop}
    (h : ∀ x ∈ l, Yields size (f x) (R x) (g x)) :
    Yields size (l.mapM f) (∀ x ∈ l, R x) (l.map g) := by
  induction l with
  | nil =>
    have hnil : Yields size (List.mapM f []) True [] := of_eq rfl
    exact hnil.congr (by simp)
  | cons x l ih =>
    obtain ⟨hx, hl⟩ := List.forall_mem_cons.mp h
    rw [List.mapM_cons]
    exact (hx.bind ((ih hl).map (g x :: ·))).congr List.forall_mem_cons.symm

end Yields

end CSharpActions
