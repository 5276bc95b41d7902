import CSharpActions.Edit
import Mathlib.Data.List.Basic

/-!
# Batches of edits

A batch whose ranges are in order is never refused. If its edits also start in batch order, they
are carried out from the last one to the first.
-/
namespace CSharpActions

namespace Edit

variable {d : Document} {edits : List Edit}

/-- The edit with its range resolved against a document. -/
def splice (d : Document) (e : Edit) : Splice :=
  ⟨d.offsetAt e.range.start, d.offsetAt e.range.stop, e.newText⟩

def Ordered (d : Document) (e : Edit) : Prop := (e.splice d).start ≤ (e.splice d).stop

theorem insert_ordered (d : Document) (p : Position) (t : Text) : (insert p t).Ordered d :=
  Nat.le_refl _

theorem resolveWith_eq {e : Edit} (h : e.Ordered d) :
    resolveWith d.lines (Document.lineStarts d.text) e = .ok (e.splice d) :=
  if_neg (Nat.not_lt.mpr h)

theorem resolveAll_eq (h : ∀ e ∈ edits, e.Ordered d) :
    resolveAll d edits = .ok (edits.map (splice d)) := by
  unfold resolveAll
  induction edits with
  | nil => rfl
  | cons e edits ih =>
    have he := resolveWith_eq (h e List.mem_cons_self)
    have ih := ih fun x hx => h x (List.mem_cons_of_mem e hx)
    simp only [List.mapM_cons, he, ih]
    rfl

theorem eq_of_resolveWith {e : Edit} {s : Splice}
    (h : resolveWith d.lines (Document.lineStarts d.text) e = .ok s) : s = e.splice d := by
  unfold resolveWith at h
  dsimp only at h
  split at h
  · simp at h
  · exact (Except.ok.inj h).symm

theorem eq_of_resolveAll {splices : List Splice} (h : resolveAll d edits = .ok splices) :
    splices = edits.map (splice d) := by
  unfold resolveAll at h
  induction edits generalizing splices with
  | nil => exact (Except.ok.inj h).symm
  | cons e edits ih =>
    simp only [List.mapM_cons] at h
    cases he : resolveWith d.lines (Document.lineStarts d.text) e with
    | error x => simp [he, bind, Except.bind] at h
    | ok s =>
      cases hs : edits.mapM (resolveWith d.lines (Document.lineStarts d.text)) with
      | error x => simp [he, hs, bind, Except.bind] at h
      | ok ss =>
        simp only [he, hs, bind, Except.bind, pure, Except.pure, Except.ok.injEq] at h
        rw [← h, eq_of_resolveWith he, ih hs, List.map_cons]

end Edit

namespace Splice

/-- A splice replaces what stands between the text before it and the text after it. -/
theorem applyTo_append (x y z new : Text) :
    applyTo ⟨x.length, x.length + y.length, new⟩ (x ++ (y ++ z)) = x ++ (new ++ z) := by
  have hd : (x ++ (y ++ z)).drop (x.length + y.length) = z := by
    rw [← List.append_assoc, ← List.length_append, List.drop_left]
  rw [applyTo, hd, List.take_left, List.append_assoc]

theorem applyTo_insert (x z new : Text) :
    applyTo ⟨x.length, x.length, new⟩ (x ++ z) = x ++ (new ++ z) := applyTo_append x [] z new

theorem applyAll_of_pairwise {ss : List Splice} (h : ss.Pairwise fun a b => a.start ≤ b.start)
    (t : Text) : applyAll ss t = ss.foldr applyTo t := by
  rw [applyAll, List.mergeSort_of_pairwise]
  simpa using h

theorem mem_foldr_applyTo {ss : List Splice} {t : Text} {c : CodePoint}
    (h : c ∈ ss.foldr applyTo t) : c ∈ t ∨ ∃ s ∈ ss, c ∈ s.newText := by
  induction ss with
  | nil => exact Or.inl h
  | cons s ss ih =>
    simp only [List.foldr_cons, applyTo, List.mem_append] at h
    have hrest : c ∈ ss.foldr applyTo t → c ∈ t ∨ ∃ x ∈ s :: ss, c ∈ x.newText := by
      intro hc
      exact (ih hc).imp_right fun ⟨x, hx, hcx⟩ => ⟨x, List.mem_cons_of_mem s hx, hcx⟩
    rcases h with (h | h) | h
    · exact hrest (List.mem_of_mem_take h)
    · exact Or.inr ⟨s, List.mem_cons_self, h⟩
    · exact hrest (List.mem_of_mem_drop h)

end Splice

namespace Document

variable {d : Document} {edits : List Edit}

theorem applyEdits_eq (ho : ∀ e ∈ edits, e.Ordered d)
    (hs : (edits.map (Edit.splice d)).Pairwise fun a b => a.start ≤ b.start) :
    d.applyEdits edits = .ok ((edits.map (Edit.splice d)).foldr Splice.applyTo d.text) := by
  rw [applyEdits, Edit.resolveAll_eq ho, Except.map, Splice.applyAll_of_pairwise hs]

theorem exists_applyEdits_eq (ho : ∀ e ∈ edits, e.Ordered d) : ∃ t, d.applyEdits edits = .ok t := by
  rw [applyEdits, Edit.resolveAll_eq ho]
  exact ⟨_, rfl⟩

theorem applyEdits_nil (d : Document) : d.applyEdits [] = .ok d.text :=
  applyEdits_eq (by simp) (by simp)

/-- The characters of the result stood in the document or come with an edit. -/
theorem mem_applyEdits {t : Text} (h : d.applyEdits edits = .ok t) {c : CodePoint} (hc : c ∈ t) :
    c ∈ d.text ∨ ∃ e ∈ edits, c ∈ e.newText := by
  unfold applyEdits at h
  cases hs : Edit.resolveAll d edits with
  | error e => simp [hs, Except.map] at h
  | ok splices =>
    obtain rfl := Edit.eq_of_resolveAll hs
    rw [hs, Except.map, Except.ok.injEq] at h
    rw [← h, Splice.applyAll] at hc
    refine (Splice.mem_foldr_applyTo hc).imp_right ?_
    rintro ⟨s, hm, hcs⟩
    obtain ⟨e, he, rfl⟩ := List.mem_map.mp (List.mem_mergeSort.mp hm)
    exact ⟨e, he, hcs⟩

end Document

end CSharpActions
