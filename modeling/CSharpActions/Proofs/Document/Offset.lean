import CSharpActions.Proofs.Document.Insertion

/-!
# Offsets and line numbers

A place lies behind as many line feeds as there are lines above it. A line therefore starts in front
of a place exactly if its number is not greater than that of the line of the place.
-/
namespace CSharpActions

namespace Line

variable {l : Line} {ls : List Line}

theorem EndsWith.count_feed {feed : Text} (h : l.EndsWith feed) :
    l.text.count (.char '\n') = feed.count (.char '\n') := by
  obtain ⟨hcontent, hending⟩ := h
  rw [text, List.count_append, List.count_eq_zero.mpr hcontent, Nat.zero_add]
  rcases hending with hending | ⟨hending, -⟩
  · rw [hending, List.count_cons_of_ne (by decide)]
  · rw [hending]

/-- A text has one line more than line feeds. -/
theorem Reads.count_feed {t : Text} (h : Reads t ls) : t.count (.char '\n') + 1 = ls.length := by
  induction h with
  | last ends => rw [ends.count_feed, List.count_nil, List.length_singleton]
  | cons ends _ ih =>
    rw [List.count_append, ends.count_feed, List.length_cons, ← ih, List.count_singleton_self]
    omega

theorem count_feed_join (h : ∀ l ∈ ls, l.Inner) : (join ls).count (.char '\n') = ls.length := by
  induction ls with
  | nil => rfl
  | cons l ls ih =>
    obtain ⟨hl, hls⟩ := List.forall_mem_cons.mp h
    rw [join_cons, List.count_append, hl.count_feed, ih hls, List.length_cons]
    simp [Nat.add_comm]

theorem EndsWith.exists_feed (h : l.Inner) : ∃ t, l.text = t ++ [.char '\n'] := by
  rcases h.2 with he | ⟨he, -⟩
  · exact ⟨l.content ++ [.char '\r'], by simp [text, he]⟩
  · exact ⟨l.content, by rw [text, he]⟩

theorem exists_join_feed (hne : ls ≠ []) (h : ∀ l ∈ ls, l.Inner) :
    ∃ t, join ls = t ++ [.char '\n'] := by
  obtain ⟨t, ht⟩ := (h _ (List.getLast_mem hne)).exists_feed
  refine ⟨join ls.dropLast ++ t, ?_⟩
  rw [← List.dropLast_append_getLast hne, join_append, List.dropLast_concat, join_cons, join_nil,
    List.append_nil, ht, List.append_assoc]

theorem EndsWith.isBlank_of_mem_ending {feed : Text} (h : l.EndsWith feed)
    (hf : ∀ c ∈ feed, Text.isBlank c = true) : ∀ c ∈ l.ending, Text.isBlank c = true := by
  rcases h.2 with he | ⟨he, -⟩
  · rw [he]
    exact List.forall_mem_cons.mpr ⟨by decide, hf⟩
  · rwa [he]

/-- Whatever ends a line is blank. -/
theorem Reads.isBlank_of_mem_ending {t : Text} {pre post : List Line}
    (h : Reads t (pre ++ l :: post)) : ∀ c ∈ l.ending, Text.isBlank c = true := by
  have h := h.split.2
  generalize join (l :: post) = s at h
  cases h with
  | last ends => exact ends.isBlank_of_mem_ending (by simp)
  | cons ends _ => exact ends.isBlank_of_mem_ending (by decide)

end Line

namespace Document

variable {d : Document} {ls : List Line} {n : Nat}

/-- A line starts in front of a place, or at it, exactly if as many lines end before the place. -/
theorem offsetAt_le_iff (h : Line.Reads d.text ls) (hn : n < ls.length) (o : Nat) :
    d.offsetAt ⟨n, 0⟩ ≤ o ↔ n ≤ (d.text.take o).count (.char '\n') := by
  rcases Line.exists_split h.ne_nil n with ⟨pre, l, post, rfl, rfl⟩ | ⟨pre, l, rfl, hp⟩
  swap
  · rw [List.length_append, List.length_singleton] at hn
    omega
  have hinner := h.split.1
  have hcount := Line.count_feed_join hinner
  rw [offsetAt_line h, ← h.join_eq, Line.join_append]
  constructor
  · intro ho
    rw [List.take_append, List.take_of_length_le ho, List.count_append, hcount]
    exact Nat.le_add_right _ _
  · intro hle
    by_contra hlt
    rw [Nat.not_le] at hlt
    have hne : pre ≠ [] := by
      rintro rfl
      simp at hlt
    -- the last line feed above the line is behind the place
    obtain ⟨t, ht⟩ := Line.exists_join_feed hne hinner
    rw [ht, List.length_append, List.length_singleton] at hlt
    rw [ht, List.count_append, List.count_singleton_self] at hcount
    rw [ht, List.append_assoc, List.take_append_of_le_length (by omega)] at hle
    have hsub := (List.take_sublist o t).count_le (.char '\n')
    omega

theorem count_feed_take (h : Line.Reads d.text ls) (hn : n < ls.length) :
    (d.text.take (d.offsetAt ⟨n, 0⟩)).count (.char '\n') = n := by
  rcases Line.exists_split h.ne_nil n with ⟨pre, l, post, rfl, rfl⟩ | ⟨pre, l, rfl, hp⟩
  · rw [offsetAt_line h, ← h.join_eq, Line.join_append, List.take_left,
      Line.count_feed_join h.split.1]
  · rw [List.length_append, List.length_singleton] at hn
    omega

/-! ## The text between two places -/

variable {t : Text} {a b c : Nat}

theorem slice_append_slice (hab : a ≤ b) (hbc : b ≤ c) : slice t a b ++ slice t b c = slice t a c := by
  have hdrop : t.drop b = (t.drop a).drop (b - a) := by
    rw [List.drop_drop, Nat.add_sub_cancel' hab]
  have hlen : c - a = (b - a) + (c - b) := by omega
  rw [slice, slice, slice, hdrop, hlen, ← List.take_add]

theorem slice_eq_nil (h : b ≤ a) : slice t a b = [] := by
  rw [slice, Nat.sub_eq_zero_of_le h, List.take_zero]

theorem slice_append_drop (hab : a ≤ b) (t : Text) : slice t a b ++ t.drop b = t.drop a := by
  conv_rhs => rw [← List.take_append_drop (b - a) (t.drop a), List.drop_drop,
    Nat.add_sub_cancel' hab]
  rfl

theorem length_slice (hb : b ≤ t.length) : (slice t a b).length = b - a := by
  rw [slice, List.length_take, List.length_drop]
  omega

theorem slice_subset_slice (hac : a ≤ c) (t : Text) (b : Nat) : slice t c b ⊆ slice t a b := by
  by_cases hcb : c ≤ b
  · rw [← slice_append_slice hac hcb]
    exact List.subset_append_right _ _
  · rw [slice_eq_nil (by omega)]
    exact List.nil_subset _

theorem slice_subset_of_le (hbc : b ≤ c) (t : Text) (a : Nat) : slice t a b ⊆ slice t a c :=
  (List.take_prefix_take_left (by omega)).subset

/-- Between the beginnings of two lines are the lines between. -/
theorem slice_lines (h : Line.Reads d.text ls) {m : Nat} (hnm : n ≤ m) (hm : m < ls.length) :
    slice d.text (d.offsetAt ⟨n, 0⟩) (d.offsetAt ⟨m, 0⟩) = Line.join ((ls.take m).drop n) := by
  have htake : ls.take m = ls.take n ++ (ls.take m).drop n := by
    conv_lhs => rw [← List.take_append_drop n (ls.take m), List.take_take, min_eq_left hnm]
  have htext : d.text = Line.join (ls.take n) ++ (Line.join ((ls.take m).drop n) ++
      Line.join (ls.drop m)) := by
    rw [← Line.join_append, ← Line.join_append, ← List.append_assoc, ← htake, List.take_append_drop,
      h.join_eq]
  have hlen : (Line.join (ls.take m)).length =
      (Line.join (ls.take n)).length + (Line.join ((ls.take m).drop n)).length := by
    rw [← List.length_append, ← Line.join_append, ← htake]
  rw [offsetAt_eq_take h (by omega), offsetAt_eq_take h hm, hlen, htext, slice_append]

/-- From the beginning of a line to that of the next is the line; the last line has no next, so that
nothing of its ending counts. -/
theorem exists_slice_line {pre post : List Line} {l : Line}
    (h : Line.Reads d.text (pre ++ l :: post)) :
    ∃ r ⊆ l.ending, slice d.text (d.offsetAt ⟨pre.length, 0⟩)
      (d.offsetAt ⟨(pre.length : Int) + 1, 0⟩) = l.content ++ r := by
  have htext : d.text = Line.join pre ++ (l.text ++ Line.join post) := by
    rw [← h.join_eq, Line.join_append, Line.join_cons]
  cases post with
  | nil =>
    refine ⟨[], List.nil_subset _, ?_⟩
    rw [Line.text, List.append_assoc] at htext
    rw [offsetAt_line h, offsetAt_past h (by omega), htext, slice_append, List.append_nil]
  | cons k post =>
    refine ⟨l.ending, List.Subset.refl _, ?_⟩
    have h' := h
    rw [List.append_cons] at h'
    have hk := offsetAt_line h'
    rw [List.length_append, List.length_singleton, Int.natCast_succ, Line.join_append,
      List.length_append, Line.join_cons, Line.join_nil, List.append_nil] at hk
    rw [offsetAt_line h, hk, htext, slice_append, Line.text]

end Document

end CSharpActions
