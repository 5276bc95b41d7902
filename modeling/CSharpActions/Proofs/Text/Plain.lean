import CSharpActions.Proofs.Text.Numeral
import CSharpActions.Proofs.Text.Utf8
import CSharpActions.Text.ControlSequence

/-!
# Plain text

Numerals, escapes and most words of the program are printable ASCII. Such text can be encoded and
holds no control sequence, so that it is shown as it is.
-/
namespace CSharpActions

/-- A line feed, or a printable character of ASCII. -/
def CodePoint.IsPlain (c : CodePoint) : Prop := c = '\n' ∨ 0x20 ≤ c.toNat ∧ c.toNat < 0x7F

instance (c : CodePoint) : Decidable c.IsPlain :=
  inferInstanceAs (Decidable (c = '\n' ∨ 0x20 ≤ c.toNat ∧ c.toNat < 0x7F))

theorem CodePoint.IsPlain.isSome_char? {c : CodePoint} (h : c.IsPlain) : c.char?.isSome = true := by
  cases c with
  | char c => rfl
  | surrogate offset =>
    rcases h with h | h
    · simp at h
    · simp only [CodePoint.toNat] at h
      omega

namespace Text

open Utf8 (Encodable)

def Plain (t : Text) : Prop := ∀ c ∈ t, c.IsPlain

instance (t : Text) : Decidable (Plain t) := inferInstanceAs (Decidable (∀ c ∈ t, c.IsPlain))

variable {s t : Text}

@[simp] theorem plain_nil : Plain [] := List.forall_mem_nil _

@[simp] theorem plain_cons {c : CodePoint} : Plain (c :: t) ↔ c.IsPlain ∧ Plain t :=
  List.forall_mem_cons

@[simp] theorem plain_append : Plain (s ++ t) ↔ Plain s ∧ Plain t := List.forall_mem_append

theorem Plain.of_subset (h : Plain t) (hs : s ⊆ t) : Plain s := fun c hc => h c (hs hc)

/-- What holds of plain characters holds of those of plain text. -/
theorem Plain.forall (h : Plain t) {p : CodePoint → Prop} (hp : ∀ c : CodePoint, c.IsPlain → p c) :
    ∀ c ∈ t, p c := fun c hc => hp c (h c hc)

theorem Plain.encodable (h : Plain t) : Encodable t := h.forall fun _ hc => hc.isSome_char?

theorem plain_copies (n : Nat) {c : CodePoint} (h : c.IsPlain) : Plain (copies n c) := by
  intro x hx
  rw [List.eq_of_mem_replicate hx]
  exact h

theorem plain_ofNat (n : Nat) : Plain (ofNat n) := by
  intro c hc
  have hd := isPlainDigit_iff.mp (isPlainDigit_of_mem_ofNat hc)
  right
  omega

theorem plain_ofInt (n : Int) : Plain (ofInt n) := by
  cases n with
  | ofNat n => exact plain_ofNat n
  | negSucc n => exact plain_cons.mpr ⟨by decide, plain_ofNat (n + 1)⟩

theorem plain_hex (width n : Nat) : Plain (hex width n) := by
  have hdigit : ∀ m < 16, (hexDigit m).IsPlain := by decide
  induction width generalizing n with
  | zero => exact plain_nil
  | succ width ih =>
    rw [hex, plain_append, plain_cons]
    exact ⟨ih (n / 16), hdigit _ (Nat.mod_lt n (by omega)), plain_nil⟩

/-- An escape holds the character itself and plain ones. -/
theorem mem_escape {quote x c : CodePoint} (h : c ∈ escape quote x) : c = x ∨ c.IsPlain := by
  have hbackslash : CodePoint.IsPlain '\\' := by decide
  have hplain : ∀ u : Text, Plain u → c ∈ u → c = x ∨ c.IsPlain := fun u hu hc => Or.inr (hu c hc)
  unfold escape at h
  split_ifs at h
  · rcases List.mem_cons.mp h with rfl | h
    · exact Or.inr hbackslash
    · exact Or.inl (List.mem_singleton.mp h)
  · exact hplain _ (by decide) h
  · exact hplain _ (by decide) h
  · exact hplain _ (by decide) h
  · exact Or.inl (List.mem_singleton.mp h)
  · exact hplain _ (plain_cons.mpr ⟨hbackslash, plain_cons.mpr ⟨by decide, plain_hex 2 _⟩⟩) h
  · exact hplain _ (plain_cons.mpr ⟨hbackslash, plain_cons.mpr ⟨by decide, plain_hex 4 _⟩⟩) h
  · exact hplain _ (plain_cons.mpr ⟨hbackslash, plain_cons.mpr ⟨by decide, plain_hex 8 _⟩⟩) h

theorem mem_quoted {c : CodePoint} (h : c ∈ quoted t) : c ∈ t ∨ c.IsPlain := by
  have hquote : (quoteOf t).IsPlain := by
    unfold quoteOf
    split <;> decide
  rw [quoted, List.mem_append, List.mem_cons, List.mem_flatMap, List.mem_singleton] at h
  rcases h with (rfl | ⟨x, hx, hc⟩) | rfl
  · exact Or.inr hquote
  · rcases mem_escape hc with rfl | hc
    · exact Or.inl hx
    · exact Or.inr hc
  · exact Or.inr hquote

/-- Plain text has no control sequences. -/
theorem dropControlSequences_eq_self (h : Plain t) : dropControlSequences t = t := by
  have hnone : ∀ u, Plain u → controlSequence? u = none := by
    intro u hu
    unfold controlSequence?
    split
    · exact absurd (plain_cons.mp hu).1 (by decide)
    · rfl
  induction t with
  | nil =>
    rw [dropControlSequences]
    rfl
  | cons c r ih =>
    rw [dropControlSequences]
    split
    · rename_i s hs
      rw [hnone _ h] at hs
      simp at hs
    · exact congrArg (c :: ·) (ih (plain_cons.mp h).2)

end Text

end CSharpActions
