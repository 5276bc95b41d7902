import CSharpActions.Proofs.Document.Position
import CSharpActions.Proofs.Edit.Batch

/-!
# Insertions between lines

A batch that inserts fragments at the beginnings of lines puts the lines of each fragment directly
above a line of the document, from the last one to the first. Past the last line a fragment goes to
the end of that line.
-/
namespace CSharpActions

namespace Line

/-- Puts lines behind the content of the last line; what ended that line then ends the text. -/
def atEnd (new : List Line) : List Line → List Line
  | [] => new
  | [l] =>
    match new with
    | [] => [l]
    | n :: r => { n with content := l.content ++ n.content } :: (r ++ [{ l with content := [] }])
  | l :: ls => l :: atEnd new ls

/-- Puts lines directly above line `n`, or at the end of a text that has no such line. -/
def insertAbove (n : Nat) (new ls : List Line) : List Line :=
  if n < ls.length then ls.take n ++ (new ++ ls.drop n) else atEnd new ls

/-- Puts the lines of each fragment above the line that it is for. -/
def insertAll (fragments : List (Nat × Text)) (ls : List Line) : List Line :=
  fragments.foldr (fun f ls => insertAbove f.1 (ofFragment f.2) ls) ls

variable {t : Text} {l : Line} {n m : Nat} {new ls pre post : List Line}

theorem atEnd_concat (new pre : List Line) (l : Line) :
    atEnd new (pre ++ [l]) = pre ++ atEnd new [l] := by
  induction pre with
  | nil => rfl
  | cons k pre ih =>
    rw [List.cons_append, atEnd, ih, List.cons_append]
    simp

theorem insertAbove_inside (new pre : List Line) (l : Line) (post : List Line) :
    insertAbove pre.length new (pre ++ l :: post) = pre ++ (new ++ l :: post) := by
  rw [insertAbove, if_pos (by simp), List.take_left, List.drop_left]

theorem insertAbove_past (new : List Line) (l : Line) (hn : pre.length < n) :
    insertAbove n new (pre ++ [l]) = pre ++ atEnd new [l] := by
  have hl : ¬n < (pre ++ [l]).length := by
    rw [List.length_append, List.length_singleton]
    omega
  rw [insertAbove, if_neg hl, atEnd_concat]

/-- A line with the given number, or the last line where there is none. -/
theorem exists_split (h : ls ≠ []) (n : Nat) :
    (∃ pre l post, ls = pre ++ l :: post ∧ n = pre.length) ∨
      ∃ pre l, ls = pre ++ [l] ∧ pre.length < n := by
  by_cases hn : n < ls.length
  · refine Or.inl ⟨ls.take n, ls[n], ls.drop (n + 1), ?_, by simp; omega⟩
    rw [← List.drop_eq_getElem_cons hn, List.take_append_drop]
  · refine Or.inr ⟨ls.dropLast, ls.getLast h, (List.dropLast_append_getLast h).symm, ?_⟩
    have := List.length_pos_of_ne_nil h
    rw [List.length_dropLast]
    omega

theorem length_atEnd (new : List Line) (l : Line) : (atEnd new [l]).length = 1 + new.length := by
  cases new with
  | nil => rfl
  | cons k r => simp [atEnd, Nat.add_comm]

theorem length_insertAbove (h : ls ≠ []) (n : Nat) (new : List Line) :
    (insertAbove n new ls).length = ls.length + new.length := by
  rcases exists_split h n with ⟨pre, l, post, rfl, rfl⟩ | ⟨pre, l, rfl, hn⟩
  · rw [insertAbove_inside]
    simp only [List.length_append, List.length_cons]
    omega
  · rw [insertAbove_past new l hn, List.length_append, length_atEnd]
    simp only [List.length_append, List.length_singleton]
    omega

theorem insertAbove_ne_nil (h : ls ≠ []) (n : Nat) (new : List Line) :
    insertAbove n new ls ≠ [] := by
  apply List.ne_nil_of_length_pos
  have := List.length_pos_of_ne_nil h
  rw [length_insertAbove h]
  omega

theorem insertAll_ne_nil (h : ls ≠ []) (fragments : List (Nat × Text)) :
    insertAll fragments ls ≠ [] := by
  induction fragments with
  | nil => exact h
  | cons f fragments ih => exact insertAbove_ne_nil ih f.1 (ofFragment f.2)

theorem length_le_insertAll (h : ls ≠ []) (fragments : List (Nat × Text)) :
    ls.length ≤ (insertAll fragments ls).length := by
  induction fragments with
  | nil => exact Nat.le_refl _
  | cons f fragments ih =>
    have hi := length_insertAbove (insertAll_ne_nil h fragments) f.1 (ofFragment f.2)
    rw [insertAll] at ih hi ⊢
    rw [List.foldr_cons, hi]
    omega

theorem length_lt_insertAll (h : ls ≠ []) (f : Nat × Text) (fragments : List (Nat × Text))
    (hf : 0 < (ofFragment f.2).length) :
    ls.length < (insertAll (f :: fragments) ls).length := by
  have hr := length_le_insertAll h fragments
  have hi := length_insertAbove (insertAll_ne_nil h fragments) f.1 (ofFragment f.2)
  rw [insertAll] at hr hi ⊢
  rw [List.foldr_cons, hi]
  omega

/-- The lines far enough above an insertion stay. -/
theorem take_insertAbove (new : List Line) (hn : n < ls.length) (hm : n ≤ m) :
    (insertAbove m new ls).take n = ls.take n := by
  have hne : ls ≠ [] := List.ne_nil_of_length_pos (by omega)
  rcases exists_split hne m with ⟨pre, l, post, rfl, rfl⟩ | ⟨pre, l, rfl, hp⟩
  · rw [insertAbove_inside, List.take_append_of_le_length hm, List.take_append_of_le_length hm]
  · rw [List.length_append, List.length_singleton] at hn
    have hle : n ≤ pre.length := by omega
    rw [insertAbove_past new l hp, List.take_append_of_le_length hle,
      List.take_append_of_le_length hle]

theorem take_insertAll {fragments : List (Nat × Text)} (hn : n < ls.length)
    (hf : ∀ f ∈ fragments, n ≤ f.1) : (insertAll fragments ls).take n = ls.take n := by
  induction fragments with
  | nil => rfl
  | cons f fragments ih =>
    have hne : ls ≠ [] := List.ne_nil_of_length_pos (by omega)
    have ih := ih fun x hx => hf x (List.mem_cons_of_mem f hx)
    have hl : n < (insertAll fragments ls).length :=
      Nat.lt_of_lt_of_le hn (length_le_insertAll hne fragments)
    rw [← ih]
    exact take_insertAbove _ hl (hf f List.mem_cons_self)

theorem insertAbove_nil (h : ls ≠ []) (n : Nat) : insertAbove n [] ls = ls := by
  rcases exists_split h n with ⟨pre, l, post, rfl, rfl⟩ | ⟨pre, l, rfl, hn⟩
  · rw [insertAbove_inside, List.nil_append]
  · rw [insertAbove_past [] l hn]
    rfl

/-- A line above an insertion stays, or it is the last one and goes on with the first new line. -/
theorem getElem?_insertAbove_of_lt (new : List Line) {i : Nat} (hi : i < n)
    (h : ls[i]? = some l) :
    ∃ k, (insertAbove n new ls)[i]? = some k ∧
      (k = l ∨ ∃ m, new.head? = some m ∧ k.content = l.content ++ m.content) := by
  have hlt := (List.getElem?_eq_some_iff.mp h).1
  have hne : ls ≠ [] := List.ne_nil_of_length_pos (by omega)
  rcases exists_split hne n with ⟨pre, x, post, rfl, rfl⟩ | ⟨pre, x, rfl, hn⟩
  · rw [List.getElem?_append_left hi] at h
    rw [insertAbove_inside, List.getElem?_append_left hi]
    exact ⟨l, h, Or.inl rfl⟩
  · rw [insertAbove_past new x hn]
    by_cases hp : i < pre.length
    · rw [List.getElem?_append_left hp] at h ⊢
      exact ⟨l, h, Or.inl rfl⟩
    · rw [List.length_append, List.length_singleton] at hlt
      obtain rfl : i = pre.length := by omega
      simp only [List.getElem?_append_right (Nat.le_refl _), Nat.sub_self,
        List.getElem?_cons_zero, Option.some.injEq] at h ⊢
      subst h
      cases new with
      | nil => exact ⟨x, rfl, Or.inl rfl⟩
      | cons m r => exact ⟨_, rfl, Or.inr ⟨m, rfl, rfl⟩⟩

/-- The lines below an insertion move down by the lines that it brings in. -/
theorem getElem?_insertAbove_of_le (new : List Line) {i : Nat} (hi : n ≤ i)
    (hn : n < ls.length) : (insertAbove n new ls)[i + new.length]? = ls[i]? := by
  rw [insertAbove, if_pos hn, List.getElem?_append_right (by rw [List.length_take]; omega),
    List.getElem?_append_right (by rw [List.length_take]; omega), List.getElem?_drop]
  congr 1
  rw [List.length_take]
  omega

theorem take_insertAbove_of_le (new : List Line) {i : Nat} (hi : n ≤ i) (hn : n < ls.length) :
    (insertAbove n new ls).take (i + new.length) =
      ls.take n ++ (new ++ (ls.take i).drop n) := by
  have h₁ : (ls.take n).length = n := by rw [List.length_take]; omega
  have h₂ : i + new.length - n = new.length + (i - n) := by omega
  have h₃ : (ls.take n).take (i + new.length) = ls.take n := List.take_of_length_le (by omega)
  rw [insertAbove, if_pos hn, List.take_append, h₁, h₂, h₃, List.take_length_add_append,
    List.drop_take]

theorem reads_inside (hi : ∀ k ∈ new, k.Inner) (h : Reads t (pre ++ l :: post)) :
    Reads (join pre ++ (join new ++ join (l :: post))) (pre ++ (new ++ l :: post)) := by
  obtain ⟨hp, hl⟩ := h.split
  exact Reads.append hp (Reads.append hi hl)

/-- Lines at the end of a text: the first of them goes on where the last line has ended. -/
theorem reads_atEnd (hi : ∀ k ∈ new, k.Inner) (hs : ∀ k, new.head? = some k → k.content ≠ [])
    (h : Reads t (pre ++ [l])) :
    Reads (join pre ++ (l.content ++ (join new ++ l.ending))) (pre ++ atEnd new [l]) := by
  have hp := h.split.1
  obtain ⟨hf, he⟩ := h.final_last
  apply Reads.append hp
  cases new with
  | nil => simpa [atEnd, text] using Reads.last (l := l) ⟨hf, he⟩
  | cons k r =>
    have hk := hi k List.mem_cons_self
    have hc := hs k rfl
    have hfirst : ({ k with content := l.content ++ k.content } : Line).Inner := by
      refine ⟨by simpa using ⟨hf, hk.1⟩, ?_⟩
      rw [List.getLast?_append_of_ne_nil _ hc]
      exact hk.2
    have hlast : Reads ({ l with content := [] } : Line).text [{ l with content := [] }] := by
      refine Reads.last ⟨by simp, he.imp_right ?_⟩
      exact fun hr => ⟨hr.1, by simp⟩
    have hr := Reads.append (fun x hx => hi x (List.mem_cons_of_mem k hx)) hlast
    have := Reads.cons hfirst hr
    simpa [atEnd, text] using this

end Line

namespace Document

open Line (insertAbove insertAll ofFragment IsFragment)

variable {d : Document} {l : Line} {ls pre post : List Line}

theorem offsetAt_line (h : Line.Reads d.text (pre ++ l :: post)) :
    d.offsetAt ⟨pre.length, 0⟩ = (Line.join pre).length := by
  simpa using offsetAt_inside h (Nat.zero_le l.content.length)

/-- An insertion at the beginning of a line puts the fragment's lines above it. -/
theorem reads_applyTo_insert {t : Text} (h : Line.Reads d.text ls) (ht : IsFragment t) (n : Nat) :
    Line.Reads (((Edit.insert ⟨n, 0⟩ t).splice d).applyTo d.text)
      (insertAbove n (ofFragment t) ls) := by
  rcases Line.exists_split h.ne_nil n with ⟨pre, l, post, rfl, rfl⟩ | ⟨pre, l, rfl, hn⟩
  · have hr := Line.reads_inside ht.inner h
    rw [ht.join_eq] at hr
    simp only [Edit.splice, Edit.insert, offsetAt_line h]
    rwa [← h.join_eq, Line.join_append, Splice.applyTo_insert, Line.insertAbove_inside]
  · have hr := Line.reads_atEnd ht.inner ht.starts h
    have ho := offsetAt_past h (n := n) (c := 0) (by omega)
    rw [ht.join_eq] at hr
    have ht : d.text = (Line.join pre ++ l.content) ++ l.ending := by
      simp [← h.join_eq, Line.text]
    simp only [Edit.splice, Edit.insert, ho]
    rw [ht, ← List.length_append, Splice.applyTo_insert, Line.insertAbove_past _ _ hn,
      List.append_assoc]
    exact hr

variable {fragments : List (Nat × Text)}

/-- The edits that insert fragments at the beginnings of lines. -/
def insertions (fragments : List (Nat × Text)) : List Edit :=
  fragments.map fun f => Edit.insert ⟨f.1, 0⟩ f.2

theorem offsetAt_eq_take {n : Nat} (h : Line.Reads d.text ls) (hn : n < ls.length) :
    d.offsetAt ⟨n, 0⟩ = (Line.join (ls.take n)).length := by
  rcases Line.exists_split h.ne_nil n with ⟨pre, l, post, rfl, rfl⟩ | ⟨pre, l, rfl, hp⟩
  · rw [offsetAt_line h, List.take_left]
  · rw [List.length_append, List.length_singleton] at hn
    omega

/-- The place of an insertion does not depend on what is inserted below it. -/
theorem offsetAt_withText_insertAll {n : Nat} (h : Line.Reads d.text ls) (hn : n < ls.length)
    (hf : ∀ f ∈ fragments, n ≤ f.1) {t : Text} (ht : Line.Reads t (insertAll fragments ls)) :
    (d.withText t).offsetAt ⟨n, 0⟩ = d.offsetAt ⟨n, 0⟩ := by
  have hlen := Line.length_le_insertAll h.ne_nil fragments
  rw [offsetAt_eq_take h hn, offsetAt_eq_take (d := d.withText t) ht (by omega),
    Line.take_insertAll hn hf]

theorem reads_foldr_insertions (h : Line.Reads d.text ls)
    (ho : fragments.Pairwise fun f g => f.1 < g.1) (hl : ∀ f ∈ fragments, f.1 ≤ ls.length)
    (hf : ∀ f ∈ fragments, IsFragment f.2) :
    Line.Reads (((insertions fragments).map (Edit.splice d)).foldr Splice.applyTo d.text)
      (insertAll fragments ls) := by
  induction fragments with
  | nil => exact h
  | cons f fragments ih =>
    obtain ⟨hlt, ho⟩ := List.pairwise_cons.mp ho
    have hr := ih ho (fun x hx => hl x (List.mem_cons_of_mem f hx))
      fun x hx => hf x (List.mem_cons_of_mem f hx)
    have hp : d.offsetAt ⟨f.1, 0⟩ = (d.withText (((insertions fragments).map
        (Edit.splice d)).foldr Splice.applyTo d.text)).offsetAt ⟨f.1, 0⟩ := by
      cases fragments with
      | nil => rfl
      | cons g fragments =>
        have h₁ := hlt g List.mem_cons_self
        have h₂ := hl g (List.mem_cons_of_mem f List.mem_cons_self)
        exact (offsetAt_withText_insertAll h (by omega) (fun x hx => (hlt x hx).le) hr).symm
    have hs := reads_applyTo_insert (d := d.withText _) hr (hf f List.mem_cons_self) f.1
    simp only [Edit.splice, Edit.insert, ← hp] at hs
    exact hs

/-- A batch of insertions above different lines is accepted and puts every fragment above its
line. -/
theorem applyEdits_insertions (h : Line.Reads d.text ls)
    (ho : fragments.Pairwise fun f g => f.1 < g.1) (hl : ∀ f ∈ fragments, f.1 ≤ ls.length)
    (hf : ∀ f ∈ fragments, IsFragment f.2) :
    ∃ t, d.applyEdits (insertions fragments) = .ok t ∧ Line.Reads t (insertAll fragments ls) := by
  refine ⟨_, applyEdits_eq ?_ ?_, reads_foldr_insertions h ho hl hf⟩
  · intro e he
    obtain ⟨f, -, rfl⟩ := List.mem_map.mp he
    exact Edit.insert_ordered d _ _
  · rw [insertions, List.map_map, List.pairwise_map]
    exact ho.imp fun hlt => offsetAt_line_mono d hlt.le

end Document

end CSharpActions
