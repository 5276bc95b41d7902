import CSharpActions.Proofs.Document.Offset
import CSharpActions.Proofs.Edit.Batch
import Mathlib.Data.List.Chain

/-!
# Batches as simultaneous replacements

The splices of a batch are ordered by their starts, and those with one start as they come in the
batch. Where in this order each splice ends no later than the next one starts, carrying them out
from the last to the first puts their new texts between the stretches of the text that none of them
touches.
-/
namespace CSharpActions

namespace Splice

/-- Whether a numbered splice comes before another: it starts earlier, or it has the same start and
the smaller number. -/
def Precedes (a b : Splice × Nat) : Prop :=
  a.1.start < b.1.start ∨ a.1.start = b.1.start ∧ a.2 < b.2

/-- The splices of a batch with their numbers, each before the ones that it precedes. -/
structure IsOrder (batch : List Splice) (ordered : List (Splice × Nat)) : Prop where
  perm : ordered.Perm batch.zipIdx
  pairwise : ordered.Pairwise Precedes

/-- Each splice ends no later than the next one starts. -/
def Separate (ss : List Splice) : Prop := ss.IsChain fun a b => a.stop ≤ b.start

/-- The text from an offset on, with the new text of each splice between the stretches that no
splice touches. -/
def woven (t : Text) (o : Nat) : List Splice → Text
  | [] => t.drop o
  | s :: ss => Document.slice t o s.start ++ (s.newText ++ woven t s.stop ss)

instance : DecidableRel Precedes := fun a b =>
  inferInstanceAs (Decidable (a.1.start < b.1.start ∨ a.1.start = b.1.start ∧ a.2 < b.2))

instance (batch : List Splice) (ordered : List (Splice × Nat)) :
    Decidable (IsOrder batch ordered) :=
  decidable_of_iff (ordered.Perm batch.zipIdx ∧ ordered.Pairwise Precedes)
    ⟨fun h => ⟨h.1, h.2⟩, fun h => ⟨h.perm, h.pairwise⟩⟩

instance (ss : List Splice) : Decidable (Separate ss) :=
  inferInstanceAs (Decidable (ss.IsChain fun a b => a.stop ≤ b.start))

variable {batch ss : List Splice} {ordered : List (Splice × Nat)} {t : Text} {o : Nat}

theorem pairwise_zipIdx (batch : List Splice) :
    batch.zipIdx.Pairwise fun a b => a.2 < b.2 := by
  rw [List.pairwise_iff_getElem]
  intro i j hi hj hij
  simpa using hij

theorem precedes_of_zipIdxLE {a b : Splice × Nat} (hne : a.2 ≠ b.2)
    (h : List.zipIdxLE (fun a b : Splice => decide (a.start ≤ b.start)) a b = true) :
    Precedes a b := by
  simp only [List.zipIdxLE, decide_eq_true_eq] at h
  unfold Precedes
  grind

/-- A batch has one order, and its splices are carried out in that order from behind. -/
theorem exists_isOrder (batch : List Splice) : ∃ ordered, IsOrder batch ordered ∧
    ordered.map Prod.fst = batch.mergeSort fun a b => a.start ≤ b.start := by
  have hperm := List.mergeSort_perm batch.zipIdx
    (List.zipIdxLE fun a b => decide (a.start ≤ b.start))
  have hsorted : (batch.zipIdx.mergeSort
      (List.zipIdxLE fun a b => decide (a.start ≤ b.start))).Pairwise
        fun a b => List.zipIdxLE (fun a b => decide (a.start ≤ b.start)) a b = true :=
    List.pairwise_mergeSort
      (List.zipIdxLE_trans (by simpa using fun a b c : Splice => Nat.le_trans))
      (List.zipIdxLE_total (by simpa using fun a b : Splice => Nat.le_total a.start b.start)) _
  have hdistinct : (batch.zipIdx.mergeSort
      (List.zipIdxLE fun a b => decide (a.start ≤ b.start))).Pairwise fun a b => a.2 ≠ b.2 :=
    (hperm.pairwise_iff (fun h => h.symm)).mpr ((pairwise_zipIdx batch).imp Nat.ne_of_lt)
  refine ⟨_, ⟨hperm, ?_⟩, List.mergeSort_zipIdx⟩
  exact (hsorted.and hdistinct).imp fun h => precedes_of_zipIdxLE h.2 h.1

theorem Precedes.asymm {a b : Splice × Nat} (hab : Precedes a b) (hba : Precedes b a) : a = b := by
  unfold Precedes at hab hba
  omega

theorem IsOrder.unique {ordered' : List (Splice × Nat)} (h : IsOrder batch ordered)
    (h' : IsOrder batch ordered') : ordered = ordered' :=
  (h.perm.trans h'.perm.symm).eq_of_pairwise (fun _ _ _ _ => Precedes.asymm)
    h.pairwise h'.pairwise

theorem IsOrder.map_fst (h : IsOrder batch ordered) :
    ordered.map Prod.fst = batch.mergeSort fun a b => a.start ≤ b.start := by
  obtain ⟨ordered', h', hm⟩ := exists_isOrder batch
  rwa [h.unique h']

theorem IsOrder.map_fst_perm (h : IsOrder batch ordered) : (ordered.map Prod.fst).Perm batch := by
  rw [h.map_fst]
  exact List.mergeSort_perm _ _

/-- Carrying out separate splices from the last one to the first. -/
theorem foldr_applyTo_eq_woven (hr : ∀ s ∈ ss, s.start ≤ s.stop) (hl : ∀ s ∈ ss, s.stop ≤ t.length)
    (hs : Separate ss) (ho : ∀ s ∈ ss.head?, o ≤ s.start) :
    ss.foldr applyTo t = t.take o ++ woven t o ss := by
  induction ss generalizing o with
  | nil => exact (List.take_append_drop o t).symm
  | cons s ss ih =>
    obtain ⟨hr₀, hr⟩ := List.forall_mem_cons.mp hr
    obtain ⟨hl₀, hl⟩ := List.forall_mem_cons.mp hl
    obtain ⟨hs₀, hs⟩ := List.isChain_cons.mp hs
    have ho : o ≤ s.start := ho s rfl
    -- the later ones leave what stands before the end of this one
    have hlen : (t.take s.stop).length = s.stop := List.length_take_of_le hl₀
    have htake : t.take s.start = t.take o ++ Document.slice t o s.start := by
      conv_lhs => rw [← Nat.add_sub_cancel' ho, List.take_add]
      rfl
    rw [List.foldr_cons, ih hr hl hs hs₀, applyTo, List.drop_left' hlen,
      List.take_append_of_le_length (by omega), List.take_take, min_eq_left hr₀, htake, woven]
    simp only [List.append_assoc]

theorem pairwise_of_separate (hr : ∀ s ∈ ss, s.start ≤ s.stop) (hs : Separate ss) :
    ss.Pairwise fun a b => a.stop ≤ b.start := by
  induction ss with
  | nil => exact List.Pairwise.nil
  | cons s ss ih =>
    obtain ⟨hs₀, hs⟩ := List.isChain_cons.mp hs
    have hr := (List.forall_mem_cons.mp hr).2
    have ih := ih hr hs
    refine List.pairwise_cons.mpr ⟨?_, ih⟩
    intro b hb
    cases ss with
    | nil => simp at hb
    | cons a ss =>
      have ha := hs₀ a rfl
      rcases List.mem_cons.mp hb with rfl | hb
      · exact ha
      · have hab := (List.pairwise_cons.mp ih).1 b hb
        have har := hr a List.mem_cons_self
        omega

/-- The text of the splices in front of an offset, and of those behind it. -/
theorem woven_append {front back : List Splice} (hf : ∀ s ∈ front, s.start ≤ s.stop ∧ s.stop ≤ o)
    (hb : ∃ s, back.head? = some s ∧ o ≤ s.start) {n : Nat} (hn : n ≤ o) :
    woven t n (front ++ back) = woven (t.take o) n front ++ woven t o back := by
  induction front generalizing n with
  | nil =>
    obtain ⟨s, hs, ho⟩ := hb
    obtain ⟨r, rfl⟩ := List.head?_eq_some_iff.mp hs
    have htake : (t.take o).drop n = Document.slice t n o := by
      rw [List.drop_take, Document.slice]
    rw [List.nil_append, woven, woven, woven, htake, ← Document.slice_append_slice hn ho,
      List.append_assoc]
  | cons s front ih =>
    obtain ⟨⟨hr, hso⟩, hf⟩ := List.forall_mem_cons.mp hf
    have htake : Document.slice (t.take o) n s.start = Document.slice t n s.start := by
      rw [Document.slice, Document.slice, List.drop_take, List.take_take, min_eq_left (by omega)]
    rw [List.cons_append, woven, woven, ih hf hso, htake]
    simp only [List.append_assoc]

/-! ## Insertions at one offset -/

/-- Whether a splice replaces nothing and stands at the given offset. -/
def insertsAt (o : Nat) (s : Splice) : Bool := s.start = o && s.stop = o

theorem insertsAt_iff {s : Splice} : s.insertsAt o = true ↔ s.start = o ∧ s.stop = o := by
  simp [insertsAt]

/-- Insertions at one offset are ordered as they come in the batch. -/
theorem IsOrder.filter_insertsAt (h : IsOrder batch ordered) (o : Nat) :
    (ordered.map Prod.fst).filter (insertsAt o) = batch.filter (insertsAt o) := by
  have hperm := h.perm.filter fun s => insertsAt o s.1
  have hsorted : (batch.zipIdx.filter fun s => insertsAt o s.1).Pairwise Precedes := by
    rw [List.pairwise_filter]
    refine (pairwise_zipIdx batch).imp fun hlt ha hb => ?_
    exact Or.inr ⟨(insertsAt_iff.mp ha).1.trans (insertsAt_iff.mp hb).1.symm, hlt⟩
  have heq : (ordered.filter fun s => insertsAt o s.1) =
      batch.zipIdx.filter fun s => insertsAt o s.1 :=
    hperm.eq_of_pairwise (fun _ _ _ _ => Precedes.asymm) (h.pairwise.filter _) hsorted
  conv_rhs => rw [← List.zipIdx_map_fst 0 batch]
  rw [List.filter_map, List.filter_map]
  exact congrArg (List.map Prod.fst) heq

/-- Of separate splices behind an offset, those that insert there come first. -/
theorem exists_eq_filter_append (hr : ∀ s ∈ ss, s.start ≤ s.stop)
    (hs : ss.Pairwise fun a b => a.stop ≤ b.start) (ho : ∀ s ∈ ss, o ≤ s.start) :
    ∃ back, ss = ss.filter (insertsAt o) ++ back := by
  induction ss with
  | nil => exact ⟨[], rfl⟩
  | cons s ss ih =>
    obtain ⟨hr₀, hr⟩ := List.forall_mem_cons.mp hr
    obtain ⟨hs₀, hs⟩ := List.pairwise_cons.mp hs
    obtain ⟨ho₀, ho⟩ := List.forall_mem_cons.mp ho
    by_cases hi : s.insertsAt o = true
    · obtain ⟨back, hss⟩ := ih hr hs ho
      refine ⟨back, ?_⟩
      rw [List.filter_cons_of_pos hi, List.cons_append, ← hss]
    · refine ⟨s :: ss, (List.append_left_eq_self.mpr ?_).symm⟩
      -- the first one ends behind the offset, so that the others start behind it
      rw [insertsAt_iff] at hi
      refine List.filter_eq_nil_iff.mpr ?_
      intro b hb
      have hstart : s.stop ≤ b.start ∨ b = s := (List.mem_cons.mp hb).symm.imp_left (hs₀ b)
      rw [insertsAt_iff]
      rcases hstart with hstart | rfl
      · omega
      · exact hi

/-- Where the splices are separate, the insertions at one offset follow one another. -/
theorem exists_eq_append_filter (hr : ∀ s ∈ ss, s.start ≤ s.stop)
    (hs : ss.Pairwise fun a b => a.stop ≤ b.start) (hi : ∃ s ∈ ss, s.insertsAt o = true) :
    ∃ front back, ss = front ++ (ss.filter (insertsAt o) ++ back) ∧ ∀ s ∈ front, s.stop ≤ o := by
  induction ss with
  | nil => simp at hi
  | cons s ss ih =>
    obtain ⟨hr₀, hrs⟩ := List.forall_mem_cons.mp hr
    obtain ⟨hs₀, hss⟩ := List.pairwise_cons.mp hs
    by_cases hso : s.insertsAt o = true
    · obtain ⟨hstart, hstop⟩ := insertsAt_iff.mp hso
      have ho : ∀ a ∈ s :: ss, o ≤ a.start :=
        List.forall_mem_cons.mpr ⟨hstart.ge, fun a ha => hstop ▸ hs₀ a ha⟩
      obtain ⟨back, hback⟩ := exists_eq_filter_append hr hs ho
      exact ⟨[], back, hback, by simp⟩
    · obtain ⟨a, ha, hao⟩ := hi
      have hmem : a ∈ ss := (List.mem_cons.mp ha).resolve_left fun he => hso (he ▸ hao)
      obtain ⟨front, back, hback, hfront⟩ := ih hrs hss ⟨a, hmem, hao⟩
      refine ⟨s :: front, back, ?_, List.forall_mem_cons.mpr ⟨?_, hfront⟩⟩
      · rw [List.filter_cons_of_neg hso]
        exact congrArg (s :: ·) hback
      · exact (hs₀ a hmem).trans (insertsAt_iff.mp hao).1.le

theorem woven_insertions {ins : List Splice} (h : ∀ s ∈ ins, s.insertsAt o = true)
    (back : List Splice) :
    woven t o (ins ++ back) = ins.flatMap newText ++ woven t o back := by
  induction ins with
  | nil => rfl
  | cons s ins ih =>
    obtain ⟨hs, h⟩ := List.forall_mem_cons.mp h
    obtain ⟨hstart, hstop⟩ := insertsAt_iff.mp hs
    rw [List.cons_append, woven, hstart, hstop, ih h, Document.slice_eq_nil (Nat.le_refl o),
      List.flatMap_cons, List.nil_append, List.append_assoc]

/-- What is inserted at an offset stands in one piece, behind the text of what lies in front of the
offset, with the new texts in batch order. -/
def InsertsInOrder (batch ordered : List Splice) (t : Text) (o : Nat) : Prop :=
  ∃ front back, ordered = front ++ (batch.filter (insertsAt o) ++ back) ∧
    (∀ s ∈ front, s.stop ≤ o) ∧
    woven t 0 ordered = woven (t.take o) 0 front ++
      ((batch.filter (insertsAt o)).flatMap newText ++ woven t o back)

theorem IsOrder.insertsInOrder (h : IsOrder batch ordered) (hr : ∀ s ∈ batch, s.start ≤ s.stop)
    (hs : Separate (ordered.map Prod.fst)) (hi : ∃ s ∈ batch, s.insertsAt o = true) (t : Text) :
    InsertsInOrder batch (ordered.map Prod.fst) t o := by
  have hmem := fun s => h.map_fst_perm.mem_iff (a := s)
  have hro : ∀ s ∈ ordered.map Prod.fst, s.start ≤ s.stop := fun s hm => hr s ((hmem s).mp hm)
  obtain ⟨s, hsb, hso⟩ := hi
  obtain ⟨front, back, heq, hfront⟩ := exists_eq_append_filter hro (pairwise_of_separate hro hs)
    ⟨s, (hmem s).mpr hsb, hso⟩
  rw [h.filter_insertsAt] at heq
  refine ⟨front, back, heq, hfront, ?_⟩
  have hins : ∀ a ∈ batch.filter (insertsAt o), a.insertsAt o = true :=
    fun a ha => (List.mem_filter.mp ha).2
  obtain ⟨a, ins, hcons⟩ := List.exists_cons_of_ne_nil
    (List.ne_nil_of_mem (List.mem_filter.mpr ⟨hsb, hso⟩))
  have hhead : ∃ b, (batch.filter (insertsAt o) ++ back).head? = some b ∧ o ≤ b.start := by
    rw [hcons]
    exact ⟨a, rfl, (insertsAt_iff.mp (hins a (hcons ▸ List.mem_cons_self))).1.ge⟩
  rw [heq, woven_append ?_ hhead (Nat.zero_le o), woven_insertions hins]
  intro b hb
  exact ⟨hro b (heq ▸ List.mem_append_left _ hb), hfront b hb⟩

end Splice

namespace Edit

variable {d : Document} {front back edits : List Edit} {e : Edit}

instance : Decidable (e.Ordered d) :=
  inferInstanceAs (Decidable ((e.splice d).start ≤ (e.splice d).stop))

theorem not_ordered_iff : ¬e.Ordered d ↔ d.offsetAt e.range.stop < d.offsetAt e.range.start :=
  Nat.not_le

/-- The first edit that ends before it starts is reported. -/
theorem resolveAll_eq_error (hf : ∀ x ∈ front, x.Ordered d) (he : ¬e.Ordered d)
    (back : List Edit) : resolveAll d (front ++ e :: back) = .error ⟨e.range⟩ := by
  unfold resolveAll
  induction front with
  | nil =>
    have he : resolveWith d.lines (Document.lineStarts d.text) e = .error ⟨e.range⟩ :=
      if_pos (not_ordered_iff.mp he)
    simp only [List.nil_append, List.mapM_cons, he]
    rfl
  | cons x front ih =>
    obtain ⟨hx, hf⟩ := List.forall_mem_cons.mp hf
    have ih := ih hf
    simp only [List.cons_append, List.mapM_cons, resolveWith_eq hx, ih]
    rfl

/-- A batch is resolved, or one of its edits ends before it starts and is reported. -/
theorem resolveAll_cases (d : Document) (edits : List Edit) :
    (∀ e ∈ edits, e.Ordered d) ∧ resolveAll d edits = .ok (edits.map (splice d)) ∨
      ∃ e ∈ edits, ¬e.Ordered d ∧ resolveAll d edits = .error ⟨e.range⟩ := by
  cases hfirst : edits.find? (fun x => ¬x.Ordered d) with
  | none =>
    have ho : ∀ e ∈ edits, e.Ordered d := by simpa using hfirst
    exact Or.inl ⟨ho, resolveAll_eq ho⟩
  | some e =>
    obtain ⟨he, front, back, rfl, hf⟩ := List.find?_eq_some_iff_append.mp hfirst
    have hfront : ∀ x ∈ front, x.Ordered d := by simpa using hf
    have hne := of_decide_eq_true he
    exact Or.inr ⟨e, by simp, hne, resolveAll_eq_error hfront hne back⟩

/-- A batch is refused exactly if one of its edits ends before it starts. -/
theorem resolveAll_error_iff :
    (∃ err, resolveAll d edits = .error err) ↔ ∃ e ∈ edits, ¬e.Ordered d := by
  rcases resolveAll_cases d edits with ⟨ho, hr⟩ | ⟨e, he, hne, hr⟩
  · rw [hr]
    simpa using ho
  · rw [hr]
    exact ⟨fun _ => ⟨e, he, hne⟩, fun _ => ⟨_, rfl⟩⟩

end Edit

namespace Document

open Splice (IsOrder Separate woven insertsAt InsertsInOrder)

variable {d : Document} {edits : List Edit} {ordered : List (Splice × Nat)}

theorem applyEdits_error_iff :
    (∃ err, d.applyEdits edits = .error err) ↔ ∃ e ∈ edits, ¬e.Ordered d := by
  rw [← Edit.resolveAll_error_iff, applyEdits]
  cases Edit.resolveAll d edits <;> simp [Except.map]

/-- Separate edits are carried out as one replacement of all their ranges. -/
theorem applyEdits_eq_woven (ho : ∀ e ∈ edits, e.Ordered d)
    (h : IsOrder (edits.map (Edit.splice d)) ordered) (hs : Separate (ordered.map Prod.fst)) :
    d.applyEdits edits = .ok (woven d.text 0 (ordered.map Prod.fst)) := by
  have hmem : ∀ s ∈ ordered.map Prod.fst, s.start ≤ s.stop ∧ s.stop ≤ d.text.length := by
    intro s hm
    obtain ⟨e, he, rfl⟩ := List.mem_map.mp (h.map_fst_perm.mem_iff.mp hm)
    exact ⟨ho e he, offsetAt_le_length d _⟩
  rw [applyEdits, Edit.resolveAll_eq ho, Except.map, Splice.applyAll, ← h.map_fst,
    Splice.foldr_applyTo_eq_woven (fun s hm => (hmem s hm).1) (fun s hm => (hmem s hm).2) hs
      fun s _ => Nat.zero_le s.start]
  rfl

/-- For every document and every batch: it is refused exactly if one of its edits ends before it
starts. The order of its edits by start and number is unique. Where in it each edit ends no later
than the next one starts, the result is the text with all ranges replaced at once, and insertions at
one offset are in batch order. The empty batch changes nothing. -/
theorem applyEdits_simultaneous (d : Document) (edits : List Edit) :
    ((∃ err, d.applyEdits edits = .error err) ↔
        ∃ e ∈ edits, d.offsetAt e.range.stop < d.offsetAt e.range.start) ∧
      (∃! ordered, IsOrder (edits.map (Edit.splice d)) ordered) ∧
      (∀ ordered, (∀ e ∈ edits, d.offsetAt e.range.start ≤ d.offsetAt e.range.stop) →
        IsOrder (edits.map (Edit.splice d)) ordered → Separate (ordered.map Prod.fst) →
        d.applyEdits edits = .ok (woven d.text 0 (ordered.map Prod.fst)) ∧
        ∀ o, (∃ e ∈ edits, (e.splice d).insertsAt o = true) →
          InsertsInOrder (edits.map (Edit.splice d)) (ordered.map Prod.fst) d.text o) ∧
      d.applyEdits [] = .ok d.text := by
  refine ⟨?_, ?_, ?_, applyEdits_nil d⟩
  · rw [applyEdits_error_iff]
    simp only [Edit.not_ordered_iff]
  · obtain ⟨ordered, h, -⟩ := Splice.exists_isOrder (edits.map (Edit.splice d))
    exact ⟨ordered, h, fun ordered' h' => h'.unique h⟩
  · intro ordered ho h hs
    refine ⟨applyEdits_eq_woven ho h hs, ?_⟩
    rintro o ⟨e, he, hi⟩
    exact h.insertsInOrder (List.forall_mem_map.mpr ho) hs ⟨_, List.mem_map_of_mem he, hi⟩ d.text

/-- Two insertions in front of a replacement that ends where another one starts. -/
theorem applyEdits_simultaneous_touching :
    ∃ (d : Document) (edits : List Edit) (ordered : List (Splice × Nat)),
      d.text = "ab\ncd" ∧ edits = [⟨⟨⟨1, 1⟩, ⟨1, 9⟩⟩, "D"⟩, Edit.insert ⟨0, 1⟩ "x",
        Edit.insert ⟨0, 1⟩ "y", ⟨⟨⟨0, 1⟩, ⟨1, 1⟩⟩, "-"⟩] ∧
      (∀ e ∈ edits, d.offsetAt e.range.start ≤ d.offsetAt e.range.stop) ∧
      IsOrder (edits.map (Edit.splice d)) ordered ∧ Separate (ordered.map Prod.fst) ∧
      d.applyEdits edits = .ok (woven d.text 0 (ordered.map Prod.fst)) ∧
      woven d.text 0 (ordered.map Prod.fst) = "axy-D" := by
  obtain ⟨d, hd⟩ : ∃ d : Document, d = ⟨"ab\ncd", none⟩ := ⟨_, rfl⟩
  obtain ⟨edits, he⟩ : ∃ edits : List Edit, edits = [⟨⟨⟨1, 1⟩, ⟨1, 9⟩⟩, "D"⟩,
    Edit.insert ⟨0, 1⟩ "x", Edit.insert ⟨0, 1⟩ "y", ⟨⟨⟨0, 1⟩, ⟨1, 1⟩⟩, "-"⟩] := ⟨_, rfl⟩
  have hordered : ∀ e ∈ edits, d.offsetAt e.range.start ≤ d.offsetAt e.range.stop := by
    subst hd he
    decide +kernel
  have horder : IsOrder (edits.map (Edit.splice d))
      [(⟨1, 1, "x"⟩, 1), (⟨1, 1, "y"⟩, 2), (⟨1, 4, "-"⟩, 3), (⟨4, 5, "D"⟩, 0)] := by
    subst hd he
    decide +kernel
  have hseparate : Separate [⟨1, 1, "x"⟩, ⟨1, 1, "y"⟩, ⟨1, 4, "-"⟩, ⟨4, 5, "D"⟩] := by decide
  obtain ⟨-, -, happly, -⟩ := applyEdits_simultaneous d edits
  refine ⟨d, edits, _, by rw [hd], he, hordered, horder, hseparate,
    (happly _ hordered horder hseparate).1, ?_⟩
  subst hd
  decide

end Document

end CSharpActions
