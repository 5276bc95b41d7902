import CSharpActions.Layout.Indent
import CSharpActions.Proofs.Document.Line
import CSharpActions.Proofs.Edit.Batch

/-!
# A pass over a document

What the formatter makes of a document, line by line: a line gets its new indentation and keeps
the rest of its content and its ending. The edits of a pass are never refused, and together they
lay out every line.
-/
namespace CSharpActions

namespace Layout

open Document (isIndent indentOf)

/-- A unit of indentation: one character or more, all of them the same space or tab. -/
def IsUnit (c : CodePoint) (unit : Text) : Prop :=
  isIndent c = true ∧ ∃ n, unit = Text.copies (n + 1) c

/-- The character that the indentation of the next pass is made of. -/
def indentChar (lines : List Text) : CodePoint :=
  if Document.prefersTabs lines then .char '\t' else .char ' '

theorem isUnit_unitFor {tabSize : Int} (h : 1 ≤ tabSize) (lines : List Text) :
    IsUnit (indentChar lines) (Document.unitFor lines tabSize) := by
  unfold indentChar Document.unitFor
  split
  · exact ⟨by decide, 0, rfl⟩
  · obtain ⟨n, hn⟩ : ∃ n, tabSize.toNat = n + 1 := ⟨tabSize.toNat - 1, by omega⟩
    exact ⟨by decide, n, by rw [Document.spaces, hn]⟩

/-- The indentation that a placement gives a line. -/
def Placement.spread (unit line : Text) : Placement → Text
  | .keep => indentOf line
  | .level n => (List.replicate n unit).flatten
  | .column n => Text.copies n (unit.headD (.char ' '))

theorem Placement.indent_eq {unit : Text} (h : unit ≠ []) (line : Text) (p : Placement) :
    p.indent unit line = .ok (p.spread unit line) := by
  cases p with
  | keep => rfl
  | level n => rfl
  | column n =>
    cases unit with
    | nil => exact absurd rfl h
    | cons c u => rfl

namespace State

def newIndent (unit : Text) (s : State) (line : Text) : Text :=
  (s.placeLine line).spread unit line

/-- A line with its new indentation. -/
def moved (unit : Text) (s : State) (line : Text) : Text :=
  s.newIndent unit line ++ line.dropWhile isIndent

end State

/-- The lines that follow a state, laid out. -/
def relaid (unit : Text) : State → List Line → List Line
  | _, [] => []
  | s, l :: r =>
    { l with content := s.moved unit l.content } :: relaid unit (s.next unit.length l.content) r

/-- The edits of a pass for the lines from number `n` on. -/
def editList (unit : Text) : Nat → State → List Text → List Edit
  | _, _, [] => []
  | n, s, l :: r =>
    (indentEdit? n l (s.newIndent unit l)).toList ++ editList unit (n + 1) (s.next unit.length l) r

variable {unit : Text} {c : CodePoint}

theorem IsUnit.ne_nil (h : IsUnit c unit) : unit ≠ [] := by
  obtain ⟨_, n, rfl⟩ := h
  simp [Text.copies, List.replicate_succ]

theorem editsFrom_eq (h : unit ≠ []) (n : Nat) (s : State) (lines : List Text) :
    editsFrom unit n s lines = .ok (editList unit n s lines) := by
  induction lines generalizing n s with
  | nil => rfl
  | cons l r ih =>
    rw [editsFrom, Placement.indent_eq h, ih]
    rfl

theorem format_eq {d : Document} {tabSize : Int} (h : 1 ≤ tabSize) :
    format d tabSize = .ok (editList (d.indentUnit tabSize) 0 {} d.lines) := by
  rw [format_eq_editsFrom]
  exact editsFrom_eq (isUnit_unitFor h d.lines).ne_nil 0 {} d.lines

theorem placeLine_of_fixed {s : State} {line : Text} (h : s.fixed line = true) :
    s.placeLine line = .keep := by
  rw [State.placeLine, State.place, if_pos h]

/-- A line that has to stay does so. -/
theorem moved_of_fixed {s : State} {line : Text} (h : s.fixed line = true) :
    s.moved unit line = line := by
  rw [State.moved, State.newIndent, placeLine_of_fixed h]
  exact Document.indentOf_append_dropWhile line

theorem flatten_replicate_copies (k n : Nat) (c : CodePoint) :
    (List.replicate k (Text.copies n c)).flatten = Text.copies (k * n) c := by
  simp [Text.copies]

/-- Any other line is indented by copies of one character. -/
theorem newIndent_of_not_fixed (hu : IsUnit c unit) {s : State} {line : Text}
    (h : s.fixed line = false) :
    ∃ n, s.newIndent unit line = Text.copies n c := by
  obtain ⟨_, m, rfl⟩ := hu
  rw [State.newIndent, State.placeLine, State.place, h, if_neg Bool.false_ne_true]
  split
  · exact ⟨_, rfl⟩
  · exact ⟨_, flatten_replicate_copies _ _ _⟩

theorem isIndent_of_mem_newIndent (hu : IsUnit c unit) {s : State} {line : Text} {x : CodePoint}
    (hx : x ∈ s.newIndent unit line) : isIndent x = true := by
  cases h : s.fixed line with
  | true =>
    rw [State.newIndent, placeLine_of_fixed h] at hx
    exact Document.isIndent_of_mem_indentOf hx
  | false =>
    obtain ⟨n, hn⟩ := newIndent_of_not_fixed hu h
    rw [hn] at hx
    rw [List.eq_of_mem_replicate hx]
    exact hu.1

theorem indentOf_moved (hu : IsUnit c unit) (s : State) (line : Text) :
    indentOf (s.moved unit line) = s.newIndent unit line :=
  Document.indentOf_append_body (fun _ => isIndent_of_mem_newIndent hu) line

theorem dropWhile_moved (hu : IsUnit c unit) (s : State) (line : Text) :
    (s.moved unit line).dropWhile isIndent = line.dropWhile isIndent := by
  rw [State.moved, Document.dropWhile_isIndent_append fun _ => isIndent_of_mem_newIndent hu]
  exact List.dropWhile_idempotent _ _

theorem moved_eq_iff {s : State} {line : Text} :
    s.moved unit line = line ↔ s.newIndent unit line = indentOf line := by
  rw [State.moved]
  conv_lhs => rhs; rw [← Document.indentOf_append_dropWhile line]
  exact List.append_left_inj _

/-- Moving a line changes neither where it ends nor how. -/
theorem endsWith_moved (hu : IsUnit c unit) (s : State) {feed : Text} {l : Line}
    (h : l.EndsWith feed) :
    ({ l with content := s.moved unit l.content } : Line).EndsWith feed := by
  obtain ⟨hn, he⟩ := h
  refine ⟨?_, he.imp_right ?_⟩
  · intro hm
    rcases List.mem_append.mp hm with hm | hm
    · have := isIndent_of_mem_newIndent hu hm
      simp [isIndent] at this
    · exact hn ((List.dropWhile_suffix _).subset hm)
  · rintro ⟨hf, hr⟩
    refine ⟨hf, ?_⟩
    intro hl
    rw [State.moved, List.getLast?_append] at hl
    cases hb : (l.content.dropWhile isIndent).getLast? with
    | some x =>
      rw [hb, Option.some_or, Option.some.injEq] at hl
      refine hr ?_
      rw [← Document.indentOf_append_dropWhile l.content, List.getLast?_append, hb, hl]
      rfl
    | none =>
      rw [hb, Option.none_or] at hl
      have := isIndent_of_mem_newIndent hu (List.mem_of_getLast? hl)
      simp [isIndent] at this

theorem unindented_relaid (hu : IsUnit c unit) (s : State) (ls : List Line) :
    (relaid unit s ls).map Line.unindented = ls.map Line.unindented := by
  induction ls generalizing s with
  | nil => rfl
  | cons l ls ih =>
    rw [relaid, List.map_cons, List.map_cons, ih]
    congr 1
    simp [Line.unindented, dropWhile_moved hu]

theorem reads_relaid (hu : IsUnit c unit) (s : State) {t : Text} {ls : List Line}
    (h : Line.Reads t ls) : Line.Reads (Line.join (relaid unit s ls)) (relaid unit s ls) := by
  induction h generalizing s with
  | last ends =>
    simpa [relaid] using Line.Reads.last (endsWith_moved hu s ends)
  | cons ends _ ih =>
    rw [relaid, Line.join_cons]
    exact Line.Reads.cons (endsWith_moved hu s ends) (ih _)

theorem editList_eq_nil_iff (n : Nat) (s : State) (ls : List Line) :
    editList unit n s (ls.map Line.content) = [] ↔ relaid unit s ls = ls := by
  induction ls generalizing n s with
  | nil => simp [editList, relaid]
  | cons l ls ih =>
    have he : (indentEdit? n l.content (s.newIndent unit l.content)).toList = [] ↔
        s.moved unit l.content = l.content := by
      rw [moved_eq_iff, indentEdit?]
      split <;> simp_all
    rw [List.map_cons, editList, relaid, List.append_eq_nil_iff, List.cons.injEq, he, ih]
    constructor
    · rintro ⟨h₁, h₂⟩
      exact ⟨by rw [h₁], h₂⟩
    · rintro ⟨h₁, h₂⟩
      exact ⟨congrArg Line.content h₁, h₂⟩

section Apply

variable {d : Document} {l : Line} {pre post ls : List Line}

theorem splice_of_mem_indentEdit? (h : Line.Reads d.text (pre ++ l :: post)) {new : Text}
    {e : Edit} (he : e ∈ (indentEdit? pre.length l.content new).toList) :
    e.splice d = ⟨(Line.join pre).length,
      (Line.join pre).length + (indentOf l.content).length, new⟩ := by
  have hc : (indentOf l.content).length ≤ l.content.length :=
    (List.takeWhile_prefix _).length_le
  have h₀ := Document.offsetAt_inside h (Nat.zero_le l.content.length)
  have h₁ := Document.offsetAt_inside h hc
  rw [indentEdit?] at he
  split at he
  · simp at he
  · obtain rfl := by simpa using he
    rw [Edit.splice, h₁]
    simpa using h₀

/-- The edits of a pass lie on the lines they are for. -/
theorem ordered_of_mem_editList (s : State) (h : Line.Reads d.text (pre ++ ls)) {e : Edit}
    (he : e ∈ editList unit pre.length s (ls.map Line.content)) :
    e.Ordered d ∧ (Line.join pre).length ≤ (e.splice d).start := by
  induction ls generalizing pre s with
  | nil => simp [editList] at he
  | cons l ls ih =>
    rw [List.map_cons, editList, List.mem_append] at he
    rcases he with he | he
    · rw [Edit.Ordered, splice_of_mem_indentEdit? h he]
      exact ⟨Nat.le_add_right _ _, Nat.le_refl _⟩
    · rw [List.append_cons] at h
      obtain ⟨ho, hs⟩ := ih (s.next unit.length l.content) h (by simpa using he)
      simp only [Line.join_append, List.length_append] at hs
      exact ⟨ho, by omega⟩

theorem pairwise_editList (s : State) (h : Line.Reads d.text (pre ++ ls)) :
    ((editList unit pre.length s (ls.map Line.content)).map (Edit.splice d)).Pairwise
      fun a b => a.start ≤ b.start := by
  induction ls generalizing pre s with
  | nil => simp [editList]
  | cons l ls ih =>
    have h' := h
    rw [List.append_cons] at h'
    have ih := ih (s.next unit.length l.content) h'
    rw [List.length_append, List.length_singleton] at ih
    rw [List.map_cons, editList, List.map_append, List.pairwise_append]
    refine ⟨?_, ih, ?_⟩
    · cases indentEdit? pre.length l.content (s.newIndent unit l.content) <;> simp
    · intro a ha b hb
      obtain ⟨e, he, rfl⟩ := List.mem_map.mp ha
      obtain ⟨f, hf, rfl⟩ := List.mem_map.mp hb
      have hs := (ordered_of_mem_editList (s.next unit.length l.content) h'
        (by simpa using hf)).2
      rw [splice_of_mem_indentEdit? h he]
      simp only [Line.join_append, List.length_append] at hs ⊢
      omega

/-- The edits of a pass lay out the lines, from the last to the first. -/
theorem foldr_editList (s : State) (h : Line.Reads d.text (pre ++ ls)) :
    ((editList unit pre.length s (ls.map Line.content)).map (Edit.splice d)).foldr Splice.applyTo
      d.text = Line.join pre ++ Line.join (relaid unit s ls) := by
  induction ls generalizing pre s with
  | nil =>
    rw [List.append_nil] at h
    simp [editList, relaid, h.join_eq]
  | cons l ls ih =>
    have h' := h
    rw [List.append_cons] at h'
    have ih := ih (s.next unit.length l.content) h'
    rw [List.length_append, List.length_singleton] at ih
    rw [List.map_cons, editList, relaid, List.map_append, List.foldr_append, ih, Line.join_append,
      Line.join_cons, Line.join_nil, List.append_nil, Line.join_cons]
    have hl : l.text = indentOf l.content ++ (l.content.dropWhile isIndent ++ l.ending) := by
      rw [← List.append_assoc, Document.indentOf_append_dropWhile, Line.text]
    cases he : indentEdit? pre.length l.content (s.newIndent unit l.content) with
    | none =>
      -- no edit: the indentation is the right one already
      have hm : s.moved unit l.content = l.content := by
        rw [moved_eq_iff]
        rw [indentEdit?] at he
        split at he
        · assumption
        · simp at he
      simp [hm, Line.text]
    | some e =>
      have hs := splice_of_mem_indentEdit? (e := e) h (by rw [he]; simp)
      rw [Option.toList_some, List.map_cons, List.map_nil, List.foldr_cons, List.foldr_nil, hs,
        hl, List.append_assoc, List.append_assoc, Splice.applyTo_append, Line.text, State.moved]
      simp

end Apply

/-- A pass succeeds and lays out the lines of the document. -/
theorem applyEdits_format {d : Document} {ls : List Line} {tabSize : Int} (hk : 1 ≤ tabSize)
    (h : Line.Reads d.text ls) :
    ∃ edits, format d tabSize = .ok edits ∧
      d.applyEdits edits = .ok (Line.join (relaid (d.indentUnit tabSize) {} ls)) ∧
      (edits = [] ↔ relaid (d.indentUnit tabSize) {} ls = ls) := by
  have hp : Line.Reads d.text ([] ++ ls) := h
  refine ⟨_, format_eq hk, ?_, ?_⟩
  · rw [Document.lines_eq h]
    refine (Document.applyEdits_eq ?_ ?_).trans (congrArg Except.ok (foldr_editList {} hp))
    · exact fun e he => (ordered_of_mem_editList {} hp he).1
    · exact pairwise_editList {} hp
  · rw [Document.lines_eq h]
    exact editList_eq_nil_iff 0 {} ls

end Layout

end CSharpActions
