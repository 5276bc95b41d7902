import CSharpActions.Proofs.Document.Insertion
import CSharpActions.Proofs.Edit.Simultaneous

/-!
# What edits keep

Separate splices keep the characters that none of them covers, and put their new texts in between.
Insertions keep the whole text.
-/
namespace CSharpActions

/-- The whole is what is kept, with the pieces put in between in their order. -/
inductive Inserted {α : Type} : List (List α) → List α → List α → Prop
  | nil (y : List α) : Inserted [] y y
  | cons (x p : List α) {ps : List (List α)} {y z : List α} (rest : Inserted ps y z) :
      Inserted (p :: ps) (x ++ y) (x ++ (p ++ z))

namespace Inserted

variable {α : Type} {ps : List (List α)} {kept whole : List α}

theorem prepend (h : Inserted ps kept whole) (x : List α) :
    Inserted ps (x ++ kept) (x ++ whole) := by
  cases h with
  | nil => exact .nil _
  | cons w p rest =>
    rw [← List.append_assoc, ← List.append_assoc]
    exact .cons (x ++ w) p rest

theorem piece_subset (h : Inserted ps kept whole) {p : List α} (hp : p ∈ ps) : p ⊆ whole := by
  induction h with
  | nil y => simp at hp
  | cons x q rest ih =>
    intro c hc
    rcases List.mem_cons.mp hp with rfl | hp
    · exact List.mem_append_right _ (List.mem_append_left _ hc)
    · exact List.mem_append_right _ (List.mem_append_right _ (ih hp hc))

end Inserted

namespace Splice

/-- Whether a splice replaces the character at an offset. -/
def Covers (s : Splice) (i : Nat) : Prop := s.start ≤ i ∧ i < s.stop

instance (s : Splice) (i : Nat) : Decidable (s.Covers i) :=
  inferInstanceAs (Decidable (s.start ≤ i ∧ i < s.stop))

/-- The characters of a text that no splice covers; its first one has the given offset. -/
def outside (ss : List Splice) (o : Nat) (t : Text) : Text :=
  ((t.zipIdx o).filter fun c => ∀ s ∈ ss, ¬s.Covers c.2).map Prod.fst

variable {ss : List Splice} {t : Text} {o : Nat}

theorem outside_append (u v : Text) :
    outside ss o (u ++ v) = outside ss o u ++ outside ss (o + u.length) v := by
  rw [outside, List.zipIdx_append, List.filter_append, List.map_append, outside, outside]

theorem outside_eq_self (h : ∀ s ∈ ss, ∀ i < o + t.length, ¬s.Covers i) : outside ss o t = t := by
  have hf : ((t.zipIdx o).filter fun c => ∀ s ∈ ss, ¬s.Covers c.2) = t.zipIdx o := by
    refine List.filter_eq_self.mpr fun c hc => decide_eq_true fun s hs => ?_
    exact h s hs c.2 (List.mem_zipIdx hc).2.1
  rw [outside, hf, List.zipIdx_map_fst]

theorem outside_eq_nil {s : Splice} (hs : s ∈ ss) (ho : s.start ≤ o)
    (hstop : o + t.length ≤ s.stop) : outside ss o t = [] := by
  have hf : ((t.zipIdx o).filter fun c => ∀ s ∈ ss, ¬s.Covers c.2) = [] := by
    refine List.filter_eq_nil_iff.mpr fun c hc hno => ?_
    have hle := List.mem_zipIdx hc
    exact of_decide_eq_true hno s hs ⟨by omega, by omega⟩
  rw [outside, hf, List.map_nil]

theorem outside_cons_of_stop_le {s : Splice} (h : s.stop ≤ o) :
    outside (s :: ss) o t = outside ss o t := by
  unfold outside
  congr 1
  refine List.filter_congr fun c hc => ?_
  have hle := (List.mem_zipIdx hc).1
  have hno : ¬s.Covers c.2 := fun hcov => by
    have hlt := hcov.2
    omega
  simp [hno]

theorem outside_perm {ss' : List Splice} (h : ss.Perm ss') (o : Nat) (t : Text) :
    outside ss o t = outside ss' o t := by
  simp only [outside, h.mem_iff]

/-- Separate splices put their new texts between the characters that none of them covers. -/
theorem inserted_woven (hr : ∀ s ∈ ss, s.start ≤ s.stop ∧ s.stop ≤ t.length)
    (hs : ss.Pairwise fun a b => a.stop ≤ b.start) (ho : ∀ s ∈ ss, o ≤ s.start) :
    Inserted (ss.map newText) (outside ss o (t.drop o)) (woven t o ss) := by
  induction ss generalizing o with
  | nil =>
    rw [outside_eq_self (by simp)]
    exact .nil _
  | cons s ss ih =>
    obtain ⟨⟨hr₀, hl₀⟩, hr⟩ := List.forall_mem_cons.mp hr
    obtain ⟨hs₀, hs⟩ := List.pairwise_cons.mp hs
    have ho₀ : o ≤ s.start := ho s List.mem_cons_self
    have hstart : ∀ x ∈ s :: ss, s.start ≤ x.start :=
      List.forall_mem_cons.mpr ⟨Nat.le_refl _, fun x hx => hr₀.trans (hs₀ x hx)⟩
    -- the text before the splice, the text that it covers, and the text behind it
    have hcut : t.drop o = Document.slice t o s.start ++
        (Document.slice t s.start s.stop ++ t.drop s.stop) := by
      rw [← List.append_assoc, Document.slice_append_slice ho₀ hr₀]
      exact (Document.slice_append_drop (ho₀.trans hr₀) t).symm
    have hlen₁ : o + (Document.slice t o s.start).length = s.start := by
      rw [Document.length_slice (hr₀.trans hl₀), Nat.add_sub_cancel' ho₀]
    have hlen₂ : s.start + (Document.slice t s.start s.stop).length = s.stop := by
      rw [Document.length_slice hl₀, Nat.add_sub_cancel' hr₀]
    have hbefore : ∀ x ∈ s :: ss, ∀ i < o + (Document.slice t o s.start).length, ¬x.Covers i := by
      intro x hx i hi hcov
      have hle := hstart x hx
      have hxi := hcov.1
      omega
    have hkept : outside (s :: ss) o (t.drop o) =
        Document.slice t o s.start ++ outside ss s.stop (t.drop s.stop) := by
      rw [hcut, outside_append, hlen₁, outside_append, hlen₂, outside_eq_self hbefore,
        outside_eq_nil List.mem_cons_self (Nat.le_refl _) hlen₂.le, List.nil_append,
        outside_cons_of_stop_le (Nat.le_refl _)]
    rw [hkept]
    exact .cons _ _ (ih hr hs hs₀)

end Splice

namespace Document

variable {d : Document}

/-- Insertions at the beginnings of lines, in order. -/
theorem exists_inserted_applyEdits {fragments : List (Nat × Text)}
    (hs : (fragments.map fun f => d.offsetAt ⟨f.1, 0⟩).Pairwise (· ≤ ·)) :
    ∃ t, d.applyEdits (insertions fragments) = .ok t ∧
      Inserted (fragments.map (·.2)) d.text t := by
  have hsplice : (insertions fragments).map (Edit.splice d) = fragments.map fun f =>
      ⟨d.offsetAt ⟨f.1, 0⟩, d.offsetAt ⟨f.1, 0⟩, f.2⟩ := by
    rw [insertions, List.map_map]
    rfl
  have hstart : ((insertions fragments).map (Edit.splice d)).Pairwise
      fun a b => a.start ≤ b.start := by
    rw [hsplice, List.pairwise_map]
    exact List.pairwise_map.mp hs
  have hstop : ((insertions fragments).map (Edit.splice d)).Pairwise
      fun a b => a.stop ≤ b.start := by
    rw [hsplice, List.pairwise_map]
    exact List.pairwise_map.mp hs
  have hall : ∀ s ∈ (insertions fragments).map (Edit.splice d),
      s.stop = s.start ∧ s.stop ≤ d.text.length := by
    intro s hm
    rw [hsplice] at hm
    obtain ⟨f, -, rfl⟩ := List.mem_map.mp hm
    exact ⟨rfl, offsetAt_le_length d _⟩
  have hins := Splice.inserted_woven (fun s hm => ⟨(hall s hm).1.ge, (hall s hm).2⟩) hstop
    (fun s _ => Nat.zero_le s.start)
  have houtside : Splice.outside ((insertions fragments).map (Edit.splice d)) 0 d.text =
      d.text := by
    refine Splice.outside_eq_self fun s hm i _ hcov => ?_
    have heq := (hall s hm).1
    have hlow := hcov.1
    have hhigh := hcov.2
    omega
  rw [List.drop_zero, houtside, hsplice, List.map_map] at hins
  refine ⟨_, applyEdits_eq ?_ hstart, ?_⟩
  · intro e he
    obtain ⟨f, -, rfl⟩ := List.mem_map.mp he
    exact Edit.insert_ordered d _ _
  · rw [Splice.foldr_applyTo_eq_woven (fun s hm => (hall s hm).1.ge) (fun s hm => (hall s hm).2)
      hstop.isChain fun s _ => Nat.zero_le s.start, hsplice]
    exact hins

end Document

end CSharpActions
