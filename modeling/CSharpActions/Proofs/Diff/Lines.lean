import CSharpActions.Diff.Unified
import CSharpActions.Proofs.Text.Plain

/-!
# Lines of a diff

A diff shows lines of the two texts, the path, and plain text of its own.
-/
namespace CSharpActions

open Text (Plain plain_append plain_cons plain_nil)

/-- The lines of a text, in their order, make up the text. -/
theorem Text.flatten_boundedLines (t : Text) : (boundedLines t).flatten = t := by
  induction t using boundedLines.induct with
  | case1 => rfl
  | case2 r ih => rw [boundedLines, List.flatten_cons, ih]; rfl
  | case3 c r hcr hb ih =>
    rw [boundedLines, if_pos hb, List.flatten_cons, ih]
    · rfl
    · exact hcr
  | case4 c r hcr hb heq ih =>
    rw [boundedLines, if_neg hb, heq]
    · rw [heq, List.flatten_nil] at ih
      rw [← ih]
      rfl
    · exact hcr
  | case5 c r hcr hb l ls heq ih =>
    rw [boundedLines, if_neg hb, heq]
    · rw [heq, List.flatten_cons] at ih
      rw [List.flatten_cons, List.cons_append, ih]
    · exact hcr

namespace Diff

variable {p : CodePoint → Prop}

theorem forall_mem_marked {mark : CodePoint} (hm : p mark) {lines : List Text}
    (hl : ∀ l ∈ lines, ∀ c ∈ l, p c) (start stop : Nat) :
    ∀ c ∈ marked mark lines start stop, p c := by
  intro c hc
  obtain ⟨l, hmem, hcl⟩ := List.mem_flatMap.mp hc
  rcases List.mem_cons.mp hcl with rfl | hcl
  · exact hm
  · exact hl l (List.mem_of_mem_drop (List.mem_of_mem_take hmem)) c hcl

variable {a b : List Text} (h : ∀ c : CodePoint, c.IsPlain → p c) (ha : ∀ l ∈ a, ∀ c ∈ l, p c)
  (hb : ∀ l ∈ b, ∀ c ∈ l, p c)

include h ha hb

theorem forall_mem_changeText (change : Change) : ∀ c ∈ changeText a b change, p c := by
  unfold changeText
  split
  · exact forall_mem_marked (h _ (by decide)) ha _ _
  · rw [List.forall_mem_append]
    exact ⟨forall_mem_marked (h _ (by decide)) ha _ _,
      forall_mem_marked (h _ (by decide)) hb _ _⟩

omit ha hb h in
theorem plain_rangeText (start stop : Nat) : Plain (rangeText start stop) := by
  unfold rangeText
  split
  · exact Text.plain_ofNat _
  · simp only [plain_append]
    exact ⟨⟨Text.plain_ofNat _, by decide⟩, Text.plain_ofNat _⟩

theorem forall_mem_groupText (g : List Change) : ∀ c ∈ groupText a b g, p c := by
  unfold groupText
  split
  · rename_i first last _ _
    rw [List.forall_mem_append]
    refine ⟨Plain.forall ?_ h, ?_⟩
    · simp only [plain_append]
      exact ⟨⟨⟨⟨by decide, plain_rangeText _ _⟩, by decide⟩, plain_rangeText _ _⟩, by decide⟩
    · intro c hc
      obtain ⟨change, -, hchange⟩ := List.mem_flatMap.mp hc
      exact forall_mem_changeText h ha hb change c hchange
  · simp

end Diff

/-- What holds of plain characters, of the path and of both texts holds of their diff. -/
theorem Diff.forall_mem_unified {p : CodePoint → Prop} (h : ∀ c : CodePoint, c.IsPlain → p c)
    {path before after : Text}
    (hpath : ∀ c ∈ path, p c) (hbefore : ∀ c ∈ before, p c) (hafter : ∀ c ∈ after, p c) :
    ∀ c ∈ unified path before after, p c := by
  have hlines : ∀ t : Text, (∀ c ∈ t, p c) → ∀ l ∈ Text.boundedLines t, ∀ c ∈ l, p c := by
    intro t ht l hl c hc
    apply ht
    rw [← Text.flatten_boundedLines t]
    exact List.mem_flatten.mpr ⟨l, hl, hc⟩
  unfold unified
  dsimp only
  split
  · simp
  · rename_i gs _
    simp only [List.forall_mem_append]
    refine ⟨⟨⟨⟨⟨Plain.forall (by decide) h, hpath⟩, Plain.forall (by decide) h⟩, hpath⟩,
      Plain.forall (by decide) h⟩, ?_⟩
    intro c hc
    obtain ⟨g, -, hg⟩ := List.mem_flatMap.mp hc
    exact forall_mem_groupText h (hlines before hbefore) (hlines after hafter) g c hg

end CSharpActions
