import CSharpActions.Proofs.Document.Line
import Mathlib.Order.Monotone.Basic

/-!
# Positions in order

Positions are ordered by their lines, and on one line by their characters. Moving positions into a
document keeps this order and leaves those that lie inside, and inside a document offsets grow with
positions. Offsets therefore follow all positions, wherever they lie.
-/
namespace CSharpActions

namespace Position

instance : LE Position where
  le p q := p.line < q.line ∨ p.line = q.line ∧ p.character ≤ q.character

variable {p q : Position}

theorem le_iff : p ≤ q ↔ p.line < q.line ∨ p.line = q.line ∧ p.character ≤ q.character := Iff.rfl

instance : LinearOrder Position where
  le_refl p := Or.inr ⟨rfl, Int.le_refl _⟩
  le_trans p q r hpq hqr := by
    rw [le_iff] at hpq hqr ⊢
    omega
  le_antisymm p q hpq hqp := by
    rw [le_iff] at hpq hqp
    rw [Position.mk.injEq]
    omega
  le_total p q := by
    rw [le_iff, le_iff]
    omega
  toDecidableLE p q :=
    inferInstanceAs (Decidable (p.line < q.line ∨ p.line = q.line ∧ p.character ≤ q.character))
  toDecidableEq := inferInstance

theorem lt_iff : p < q ↔ p.line < q.line ∨ p.line = q.line ∧ p.character < q.character := by
  rw [← not_le, le_iff]
  omega

end Position

namespace Line

variable {l : Line} {pre post ls ms : List Line}

theorem EndsWith.length_content_lt (h : l.Inner) : l.content.length < l.text.length := by
  have hending : 0 < l.ending.length := by
    rcases h.2 with he | ⟨he, -⟩ <;> simp [he]
  rw [text, List.length_append]
  omega

/-- The content of a line ends before a row of lines that the line stands in. -/
theorem length_content_lt_join (h : ∀ k ∈ ls, k.Inner) (heq : pre ++ l :: post = ls ++ ms)
    (hlt : pre.length < ls.length) :
    (join pre).length + l.content.length < (join ls).length := by
  obtain ⟨rest, rfl⟩ : ∃ rest, ls = pre ++ l :: rest := by
    rcases List.append_eq_append_iff.mp heq with ⟨rs, rfl, hrest⟩ | ⟨rs, rfl, -⟩
    · cases rs with
      | nil => simp at hlt
      | cons k rs => exact ⟨rs, by rw [(List.cons.inj hrest).1]⟩
    · rw [List.length_append] at hlt
      omega
  have hl := (h l (by simp)).length_content_lt
  simp only [join_append, join_cons, List.length_append]
  omega

end Line

namespace Document

variable {d : Document} {p q : Position} {n : Int} {line : Text}
variable {l : Line} {pre post ls : List Line}

theorem line?_of_reads (h : Line.Reads d.text (pre ++ l :: post)) (hp : p.line = pre.length) :
    d.line? p.line = some l.content := by
  rw [hp, line?, if_neg (by omega)]
  simp [lines_eq h]

theorem line?_eq_some (h : d.line? n = some line) :
    ∃ pre l post, Line.Reads d.text (pre ++ l :: post) ∧ n = pre.length ∧ l.content = line := by
  have hr := Line.reads_read d.text
  unfold line? at h
  split at h
  · simp at h
  · rename_i hn
    rw [lines_eq hr, List.getElem?_map] at h
    obtain ⟨l, hl, rfl⟩ := Option.map_eq_some_iff.mp h
    obtain ⟨hlt, rfl⟩ := List.getElem?_eq_some_iff.mp hl
    refine ⟨(Line.read d.text).take n.toNat, (Line.read d.text)[n.toNat],
      (Line.read d.text).drop (n.toNat + 1), ?_, ?_, rfl⟩
    · rwa [List.getElem_cons_drop, List.take_append_drop]
    · rw [List.length_take]
      omega

theorem exists_line? (h : 0 ≤ n ∧ n < d.lineCount) : ∃ line, d.line? n = some line := by
  rw [line?, if_neg (by omega)]
  exact ⟨_, List.getElem?_eq_getElem (by rw [lineCount] at h; omega)⟩

/-- The positions on the lines of a document, the ends of the lines included. -/
def inside (d : Document) : Set Position :=
  {p | ∃ line, d.line? p.line = some line ∧ 0 ≤ p.character ∧ p.character ≤ line.length}

theorem mem_inside_iff : p ∈ d.inside ↔ ∃ pre l post, ∃ c : Nat,
    Line.Reads d.text (pre ++ l :: post) ∧ c ≤ l.content.length ∧ p = ⟨pre.length, c⟩ := by
  constructor
  · rintro ⟨line, hline, hpos, hle⟩
    obtain ⟨pre, l, post, h, hn, rfl⟩ := line?_eq_some hline
    refine ⟨pre, l, post, p.character.toNat, h, by omega, ?_⟩
    rw [← hn, Int.toNat_of_nonneg hpos]
  · rintro ⟨pre, l, post, c, h, hc, rfl⟩
    exact ⟨l.content, line?_of_reads h rfl, Int.natCast_nonneg c, Int.ofNat_le.mpr hc⟩

theorem lineStarts_eq (h : Line.Reads d.text ls) :
    lineStarts d.text = (List.range ls.length).map fun n => (Line.join (ls.take n)).length := by
  simpa only [lineStarts, Nat.zero_add] using h.starts_eq 0

theorem length_lineStarts (d : Document) : (lineStarts d.text).length = d.lineCount := by
  have h := Line.reads_read d.text
  rw [lineStarts_eq h, List.length_map, List.length_range, lineCount_eq h]

/-! ## Moving a position into the document -/

theorem clamp_mem_inside (d : Document) (p : Position) : d.clamp p ∈ d.inside :=
  mem_inside_iff.mpr (exists_clamp_eq d p)

theorem clamp_of_mem_inside (h : p ∈ d.inside) : d.clamp p = p := by
  obtain ⟨pre, l, post, c, hd, hc, rfl⟩ := mem_inside_iff.mp h
  exact clampTo_inside (by simp [lines_eq hd]) hc

theorem clamp_clamp (d : Document) (p : Position) : d.clamp (d.clamp p) = d.clamp p :=
  clamp_of_mem_inside (clamp_mem_inside d p)

theorem clamp_of_line? (h : d.line? p.line = some line) :
    d.clamp p = ⟨p.line, max 0 (min p.character line.length)⟩ := by
  unfold line? at h
  split at h
  · simp at h
  · rename_i hn
    rw [clamp, clampTo, if_neg hn, h]

/-- Every position above the first line is moved to the beginning of the document. -/
theorem clamp_le_of_line_neg (hp : p.line < 0) (hq : q ∈ d.inside) : d.clamp p ≤ q := by
  obtain ⟨pre, l, post, c, -, -, rfl⟩ := mem_inside_iff.mp hq
  rw [clamp, clampTo, if_pos hp, Position.le_iff]
  dsimp only
  omega

/-- Every position below the last line is moved to the end of the document. -/
theorem le_clamp_of_lineCount_le (hp : d.lineCount ≤ p.line) (hq : q ∈ d.inside) :
    q ≤ d.clamp p := by
  obtain ⟨pre, l, post, c, hd, hc, rfl⟩ := mem_inside_iff.mp hq
  have hlast := List.getLast?_eq_some_getLast (l := d.lines) (by simp [lines_eq hd])
  have hcount := lineCount_eq hd
  rw [clamp, clampTo_past hlast hp, Position.le_iff]
  dsimp only
  rw [← lineCount, hcount, List.length_append, List.length_cons]
  cases post with
  | nil =>
    -- the position is on the last line itself
    have hcontent : d.lines.getLast? = some l.content := by simp [lines_eq hd]
    obtain hl := Option.some.inj (hlast.symm.trans hcontent)
    rw [hl, List.length_nil]
    omega
  | cons k post =>
    rw [List.length_cons]
    omega

/-- Moving positions into a document keeps their order. -/
theorem monotone_clamp (d : Document) : Monotone d.clamp := by
  intro p q hpq
  have hline : p.line ≤ q.line := by
    rw [Position.le_iff] at hpq
    omega
  by_cases hp : p.line < 0
  · exact clamp_le_of_line_neg hp (clamp_mem_inside d q)
  by_cases hq : d.lineCount ≤ q.line
  · exact le_clamp_of_lineCount_le hq (clamp_mem_inside d p)
  -- both positions are on lines of the document
  obtain ⟨a, ha⟩ := exists_line? (d := d) (n := p.line) (by omega)
  obtain ⟨b, hb⟩ := exists_line? (d := d) (n := q.line) (by omega)
  rw [clamp_of_line? ha, clamp_of_line? hb, Position.le_iff]
  rcases Position.le_iff.mp hpq with hlt | ⟨heq, hle⟩
  · exact Or.inl hlt
  · rw [heq] at ha
    obtain rfl := Option.some.inj (ha.symm.trans hb)
    exact Or.inr ⟨heq, by dsimp only; omega⟩

/-! ## Offsets in order -/

theorem offsetAt_clamp (d : Document) (p : Position) : d.offsetAt (d.clamp p) = d.offsetAt p := by
  have h := clamp_clamp d p
  rw [clamp] at h
  rw [offsetAt, offsetWith, offsetAt, offsetWith, h]
  rfl

/-- Inside a document, a later position has a greater offset. -/
theorem strictMonoOn_offsetAt (d : Document) : StrictMonoOn d.offsetAt d.inside := by
  intro p hp q hq hpq
  obtain ⟨pre, l, post, c, h, hc, rfl⟩ := mem_inside_iff.mp hp
  obtain ⟨pre', l', post', c', h', hc', rfl⟩ := mem_inside_iff.mp hq
  have hlines : pre ++ l :: post = pre' ++ l' :: post' := h.read_eq.symm.trans h'.read_eq
  rw [offsetAt_inside h hc, offsetAt_inside h' hc']
  rcases Position.lt_iff.mp hpq with hlt | ⟨heq, hlt⟩
  · have := Line.length_content_lt_join h'.split.1 hlines (Int.ofNat_lt.mp hlt)
    omega
  · obtain rfl := List.append_inj_left hlines (Int.ofNat_inj.mp heq)
    exact Nat.add_lt_add_left (Int.ofNat_lt.mp hlt) _

theorem monotone_offsetAt (d : Document) : Monotone d.offsetAt := by
  intro p q hpq
  rw [← offsetAt_clamp d p, ← offsetAt_clamp d q]
  exact (strictMonoOn_offsetAt d).monotoneOn (clamp_mem_inside d p) (clamp_mem_inside d q)
    (monotone_clamp d hpq)

theorem offsetAt_line_mono (d : Document) {n m : Nat} (h : n ≤ m) :
    d.offsetAt ⟨n, 0⟩ ≤ d.offsetAt ⟨m, 0⟩ := by
  apply monotone_offsetAt
  rw [Position.le_iff]
  dsimp only
  omega

end Document

end CSharpActions
