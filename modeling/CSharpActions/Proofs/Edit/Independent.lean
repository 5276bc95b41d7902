import CSharpActions.Proofs.Edit.Inserted

/-!
# Edits that do not meet

Where no two splices of a batch meet, the batch order matters only to an insertion and a replacement
that start at one offset. If the insertion comes first there, every order of the batch gives one
text: all new texts are in it, and what no splice covers is kept. If the replacement comes first, it
is carried out last and replaces what was inserted.
-/
namespace CSharpActions

namespace Splice

/-- A splice replaces nothing. -/
def IsInsertion (s : Splice) : Prop := s.start = s.stop

/-- An insertion stands behind the first and before the last character of a replacement. -/
def InsertsInside (a b : Splice) : Prop := a.IsInsertion ∧ b.start < a.start ∧ a.start < b.stop

/-- No character is covered by both splices, none of them inserts inside the other, and they are not
insertions at one offset. -/
structure Apart (a b : Splice) : Prop where
  covers : ∀ i, ¬(a.Covers i ∧ b.Covers i)
  left : ¬a.InsertsInside b
  right : ¬b.InsertsInside a
  offsets : ¬(a.IsInsertion ∧ b.IsInsertion ∧ a.start = b.start)

/-- Of two splices that start at one offset, the first in the batch is an insertion. -/
def InsertionsFirst (batch : List Splice) : Prop :=
  batch.Pairwise fun a b => a.start = b.start → a.IsInsertion

instance (s : Splice) : Decidable s.IsInsertion := inferInstanceAs (Decidable (s.start = s.stop))

instance (a b : Splice) : Decidable (a.InsertsInside b) :=
  inferInstanceAs (Decidable (a.IsInsertion ∧ b.start < a.start ∧ a.start < b.stop))

instance : DecidableRel Apart := fun a b =>
  decidable_of_iff ((∀ i < a.stop, ¬(a.Covers i ∧ b.Covers i)) ∧ ¬a.InsertsInside b ∧
      ¬b.InsertsInside a ∧ ¬(a.IsInsertion ∧ b.IsInsertion ∧ a.start = b.start))
    ⟨fun h => ⟨fun i hi => h.1 i hi.1.2 hi, h.2.1, h.2.2.1, h.2.2.2⟩,
      fun h => ⟨fun i _ => h.covers i, h.left, h.right, h.offsets⟩⟩

instance (batch : List Splice) : Decidable (InsertionsFirst batch) :=
  inferInstanceAs (Decidable (batch.Pairwise fun a b => a.start = b.start → a.IsInsertion))

variable {a b : Splice} {batch : List Splice} {ordered : List (Splice × Nat)}

theorem Apart.symm (h : Apart a b) : Apart b a where
  covers i hi := h.covers i hi.symm
  left := h.right
  right := h.left
  offsets hi := h.offsets ⟨hi.2.1, hi.1, hi.2.2.symm⟩

instance : Std.Symm Apart := ⟨fun _ _ => Apart.symm⟩

/-- Of two splices that are apart, the one that starts first ends before the other one starts. -/
theorem Apart.stop_le (h : Apart a b) (hb : b.start ≤ b.stop) (hlt : a.start < b.start) :
    a.stop ≤ b.start := by
  by_contra hgt
  by_cases hi : b.IsInsertion
  · exact h.right ⟨hi, hlt, by omega⟩
  · have hne : b.start ≠ b.stop := hi
    exact h.covers b.start ⟨⟨by omega, by omega⟩, ⟨Nat.le_refl _, by omega⟩⟩

/-- Splices that meet in one offset without covering anything are the same one. -/
theorem eq_of_stop_le (hbatch : batch.Pairwise Apart) (hr : ∀ s ∈ batch, s.start ≤ s.stop)
    (ha : a ∈ batch) (hb : b ∈ batch) (hab : a.stop ≤ b.start) (hba : b.stop ≤ a.start) :
    a = b := by
  by_contra hne
  have hapart : Apart a b := hbatch.forall ha hb hne
  have har := hr a ha
  have hbr := hr b hb
  have hai : a.start = a.stop := by omega
  have hbi : b.start = b.stop := by omega
  exact hapart.offsets ⟨hai, hbi, by omega⟩

theorem rel_of_mem_zipIdx {R : Splice → Splice → Prop} (h : batch.Pairwise R) {x y : Splice × Nat}
    (hx : x ∈ batch.zipIdx) (hy : y ∈ batch.zipIdx) (hlt : x.2 < y.2) : R x.1 y.1 := by
  rw [List.mem_zipIdx_iff_getElem?] at hx hy
  obtain ⟨hi, hxi⟩ := List.getElem?_eq_some_iff.mp hx
  obtain ⟨hj, hyj⟩ := List.getElem?_eq_some_iff.mp hy
  have hrel := List.pairwise_iff_getElem.mp h x.2 y.2 hi hj hlt
  rwa [hxi, hyj] at hrel

theorem Precedes.stop_le (hbatch : batch.Pairwise Apart) (hr : ∀ s ∈ batch, s.start ≤ s.stop)
    (hfirst : InsertionsFirst batch) {x y : Splice × Nat} (hx : x ∈ batch.zipIdx)
    (hy : y ∈ batch.zipIdx) (h : Precedes x y) : x.1.stop ≤ y.1.start := by
  rcases h with hlt | ⟨heq, hlt⟩
  · have hapart : Apart x.1 y.1 := by
      rcases Nat.lt_trichotomy x.2 y.2 with hxy | hxy | hxy
      · exact rel_of_mem_zipIdx hbatch hx hy hxy
      · rw [List.mem_zipIdx_iff_getElem?] at hx hy
        rw [hxy, hy, Option.some.injEq] at hx
        exact absurd hlt (by rw [hx]; exact Nat.lt_irrefl _)
      · exact (rel_of_mem_zipIdx hbatch hy hx hxy).symm
    exact hapart.stop_le (hr y.1 (List.fst_mem_of_mem_zipIdx hy)) hlt
  · -- both start at one offset, and the first one is an insertion
    have hi : x.1.start = x.1.stop := rel_of_mem_zipIdx hfirst hx hy hlt heq
    omega

/-- Splices that are apart are separate in their order, unless a replacement comes before an
insertion at its start. -/
theorem IsOrder.pairwise_stop_le (h : IsOrder batch ordered) (hbatch : batch.Pairwise Apart)
    (hr : ∀ s ∈ batch, s.start ≤ s.stop) (hfirst : InsertionsFirst batch) :
    (ordered.map Prod.fst).Pairwise fun a b => a.stop ≤ b.start := by
  rw [List.pairwise_map]
  refine h.pairwise.imp_of_mem fun hx hy hxy => ?_
  exact hxy.stop_le hbatch hr hfirst (h.perm.mem_iff.mp hx) (h.perm.mem_iff.mp hy)

end Splice

namespace Document

open Splice (Apart InsertionsFirst IsOrder outside)

variable {d : Document} {edits edits' : List Edit} {ordered ordered' : List (Splice × Nat)}

theorem map_fst_eq_of_perm (hperm : edits.Perm edits') (ho : ∀ e ∈ edits, e.Ordered d)
    (hapart : (edits.map (Edit.splice d)).Pairwise Apart)
    (hfirst : InsertionsFirst (edits.map (Edit.splice d)))
    (hfirst' : InsertionsFirst (edits'.map (Edit.splice d)))
    (h : IsOrder (edits.map (Edit.splice d)) ordered)
    (h' : IsOrder (edits'.map (Edit.splice d)) ordered') :
    ordered.map Prod.fst = ordered'.map Prod.fst := by
  have hsplices := hperm.map (Edit.splice d)
  have hr : ∀ s ∈ edits.map (Edit.splice d), s.start ≤ s.stop := List.forall_mem_map.mpr ho
  have hr' : ∀ s ∈ edits'.map (Edit.splice d), s.start ≤ s.stop :=
    fun s hs => hr s (hsplices.mem_iff.mpr hs)
  refine ((h.map_fst_perm.trans hsplices).trans h'.map_fst_perm.symm).eq_of_pairwise ?_
    (h.pairwise_stop_le hapart hr hfirst)
    (h'.pairwise_stop_le ((hsplices.pairwise_iff Apart.symm).mp hapart) hr' hfirst')
  intro a b ha hb hab hba
  exact Splice.eq_of_stop_le hapart hr (h.map_fst_perm.mem_iff.mp ha)
    (hsplices.mem_iff.mpr (h'.map_fst_perm.mem_iff.mp hb)) hab hba

/-- For every document and every batch of edits that do not meet: all orders of the batch in which
an insertion comes before a replacement that starts at the same offset give one text. All new texts
are in it, and between them are the characters that no edit replaces. -/
theorem applyEdits_perm (hperm : edits.Perm edits') (ho : ∀ e ∈ edits, e.Ordered d)
    (hapart : (edits.map (Edit.splice d)).Pairwise Apart)
    (hfirst : InsertionsFirst (edits.map (Edit.splice d)))
    (hfirst' : InsertionsFirst (edits'.map (Edit.splice d))) :
    ∃ t news, d.applyEdits edits = .ok t ∧ d.applyEdits edits' = .ok t ∧
      news.Perm (edits.map Edit.newText) ∧
      Inserted news (outside (edits.map (Edit.splice d)) 0 d.text) t := by
  obtain ⟨ordered, h, -⟩ := Splice.exists_isOrder (edits.map (Edit.splice d))
  obtain ⟨ordered', h', -⟩ := Splice.exists_isOrder (edits'.map (Edit.splice d))
  have hr : ∀ s ∈ edits.map (Edit.splice d), s.start ≤ s.stop ∧ s.stop ≤ d.text.length :=
    List.forall_mem_map.mpr fun e he => ⟨ho e he, offsetAt_le_length d _⟩
  have hpair := h.pairwise_stop_le hapart (fun s hs => (hr s hs).1) hfirst
  have heq := map_fst_eq_of_perm hperm ho hapart hfirst hfirst' h h'
  have happly := applyEdits_eq_woven ho h hpair.isChain
  have happly' := applyEdits_eq_woven (fun e he => ho e (hperm.mem_iff.mpr he)) h'
    (heq ▸ hpair.isChain)
  rw [← heq] at happly'
  have hins := Splice.inserted_woven (fun s hs => hr s (h.map_fst_perm.mem_iff.mp hs)) hpair
    (fun s _ => Nat.zero_le s.start)
  rw [List.drop_zero, Splice.outside_perm h.map_fst_perm] at hins
  refine ⟨_, _, happly, happly', ?_, hins⟩
  have hnews : (edits.map (Edit.splice d)).map Splice.newText = edits.map Edit.newText :=
    List.map_map
  rw [← hnews]
  exact h.map_fst_perm.map Splice.newText

theorem applyEdits_perm_insertion_first :
    ∃ (d : Document) (edits edits' : List Edit), d.text = "abcdefgh" ∧
      edits = [Edit.insert ⟨0, 2⟩ "X", ⟨⟨⟨0, 2⟩, ⟨0, 4⟩⟩, "R"⟩, ⟨⟨⟨0, 5⟩, ⟨0, 6⟩⟩, ""⟩] ∧
      edits' = [⟨⟨⟨0, 5⟩, ⟨0, 6⟩⟩, ""⟩, Edit.insert ⟨0, 2⟩ "X", ⟨⟨⟨0, 2⟩, ⟨0, 4⟩⟩, "R"⟩] ∧
      ∃ t news, d.applyEdits edits = .ok t ∧ d.applyEdits edits' = .ok t ∧
        news.Perm (edits.map Edit.newText) ∧
        Inserted news (outside (edits.map (Edit.splice d)) 0 d.text) t := by
  refine ⟨⟨"abcdefgh", none⟩, _, _, rfl, rfl, rfl, applyEdits_perm ?_ ?_ ?_ ?_ ?_⟩ <;>
    decide +kernel

/-- A replacement before an insertion at its start is carried out behind it: it takes as many
characters as it should have taken of the document, the inserted ones first. -/
theorem applyEdits_replacement_first {p q : Position} (h : d.offsetAt p ≤ d.offsetAt q)
    (new ins : Text) :
    d.applyEdits [⟨⟨p, q⟩, new⟩, Edit.insert p ins] = .ok (d.text.take (d.offsetAt p) ++
      (new ++ (ins ++ d.text.drop (d.offsetAt p)).drop (d.offsetAt q - d.offsetAt p))) := by
  have ho : ∀ e ∈ [⟨⟨p, q⟩, new⟩, Edit.insert p ins], e.Ordered d := by
    rw [List.forall_mem_cons, List.forall_mem_singleton]
    exact ⟨h, Edit.insert_ordered d p ins⟩
  have hs : ([⟨⟨p, q⟩, new⟩, Edit.insert p ins].map (Edit.splice d)).Pairwise
      fun a b => a.start ≤ b.start := by
    simp [Edit.splice, Edit.insert]
  have hlen : (d.text.take (d.offsetAt p)).length = d.offsetAt p :=
    List.length_take_of_le (offsetAt_le_length d p)
  have hinsert : Splice.applyTo ((Edit.insert p ins).splice d) d.text =
      d.text.take (d.offsetAt p) ++ (ins ++ d.text.drop (d.offsetAt p)) := by
    rw [← List.append_assoc]
    rfl
  rw [applyEdits_eq ho hs, List.map_cons, List.map_cons, List.map_nil, List.foldr_cons,
    List.foldr_cons, List.foldr_nil, hinsert, Splice.applyTo, Edit.splice, List.take_left' hlen,
    List.drop_append, List.drop_eq_nil_of_le (hlen.le.trans h), hlen, List.nil_append,
    List.append_assoc]

/-- The order of an insertion and a replacement at one offset matters: the inserted text can be
lost, and a character that an edit replaces can stay. -/
theorem applyEdits_order_matters :
    ∃ (d : Document) (edits edits' : List Edit), d.text = "abcdefgh" ∧
      edits = [⟨⟨⟨0, 2⟩, ⟨0, 4⟩⟩, "R"⟩, Edit.insert ⟨0, 2⟩ "X"] ∧
      edits' = [Edit.insert ⟨0, 2⟩ "X", ⟨⟨⟨0, 2⟩, ⟨0, 4⟩⟩, "R"⟩] ∧
      edits.Perm edits' ∧ (∀ e ∈ edits, e.Ordered d) ∧
      (edits.map (Edit.splice d)).Pairwise Apart ∧
      d.applyEdits edits = .ok "abRdefgh" ∧ d.applyEdits edits' = .ok "abXRefgh" := by
  refine ⟨⟨"abcdefgh", none⟩, _, _, rfl, rfl, rfl, by decide, by decide +kernel,
    by decide +kernel, ?_, ?_⟩
  · rw [applyEdits_replacement_first (by decide +kernel)]
    decide +kernel
  · rw [applyEdits_eq (by decide +kernel) (by decide +kernel)]
    decide +kernel

end Document

end CSharpActions
