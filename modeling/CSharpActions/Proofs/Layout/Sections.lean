import CSharpActions.Proofs.Layout.Outline

/-!
# Switch sections

A pass indents the lines of a section by one unit more, and of the braces of a block there only the
opening one. So the braces of a block are aligned, and what is directly inside is deeper than both,
exactly if the block does not stand in a section.
-/
namespace CSharpActions.Layout

open Document (isIndent isBlankLine indentOf)

/-- The depths of the blocks with a label above, given for each open block, from the innermost
outwards, whether it has one. -/
def labelDepths : List Bool → List Nat
  | [] => []
  | labelled :: around => (if labelled then [around.length] else []) ++ labelDepths around

/-- Rows that can follow one another where the block at hand has a label above if `labelled` says
so, and `around` says it of the blocks around; where `fresh` is false, a block opens first. -/
inductive Laid : (labelled : Bool) → (around : List Bool) → (fresh : Bool) → List Row → Prop
  | nil (labelled : Bool) (around : List Bool) : Laid labelled around true []
  | statement {labelled : Bool} {around : List Bool} {rows : List Row} {code : Text}
      (h : LineKind.statement.Completes code) (rest : Laid labelled around true rows) :
      Laid labelled around true (⟨around.length + labelled.toNat, code⟩ :: rows)
  | label {labelled : Bool} {around : List Bool} {rows : List Row} {code : Text}
      (h : LineKind.label.Completes code) (rest : Laid true around true rows) :
      Laid labelled around true (⟨around.length, code⟩ :: rows)
  | header {labelled : Bool} {around : List Bool} {rows : List Row} {code : Text}
      (h : LineKind.header.Completes code) (rest : Laid labelled around false rows) :
      Laid labelled around true (⟨around.length + labelled.toNat, code⟩ :: rows)
  | opening {labelled : Bool} {around : List Bool} {fresh : Bool} {rows : List Row}
      (rest : Laid false (labelled :: around) true rows) :
      Laid labelled around fresh (⟨around.length + labelled.toNat, ['\x7b']⟩ :: rows)
  | closing {inner labelled : Bool} {around : List Bool} {rows : List Row}
      (rest : Laid labelled around true rows) :
      Laid inner (labelled :: around) true (⟨around.length, ['\x7d']⟩ :: rows)

/-- The rows of an outline follow one another, whatever follows them. -/
theorem laid_rows_append (f : Outline LineKind.Completes) {labelled : Bool} {around : List Bool}
    {rest : List Row} (h : ∀ labelled, Laid labelled around true rest) :
    Laid labelled around true (f.rows around.length labelled ++ rest) := by
  induction f generalizing labelled around rest with
  | nil => exact h labelled
  | statement code hc _ ih => exact .statement hc (ih h)
  | label code hc _ ih => exact .label hc (ih h)
  | block header body _ ihBody ihRest =>
    have hrest : Laid labelled around true (_ ++ rest) := ihRest h
    have hbody : Laid false (labelled :: around) true (_ ++ _) :=
      ihBody fun inner => .closing hrest
    rw [Outline.rows, List.append_assoc, List.cons_append, List.append_assoc]
    cases header with
    | none => exact .opening hbody
    | some header => exact .header header.2 (.opening hbody)

theorem laid_rows (f : Outline LineKind.Completes) : Laid false [] true (f.rows 0 false) := by
  have h : Laid false [] true (f.rows 0 false ++ []) :=
    laid_rows_append f fun labelled => .nil labelled []
  rwa [List.append_nil] at h

/-! ## The depths of labels -/

variable {labelled inner fresh : Bool} {around flags : List Bool}

theorem lt_of_mem_labelDepths {n : Nat} (h : n ∈ labelDepths flags) : n < flags.length := by
  induction flags with
  | nil => simp [labelDepths] at h
  | cons labelled around ih =>
    rw [labelDepths, List.mem_append] at h
    rcases h with h | h
    · cases labelled <;> simp_all
    · exact Nat.lt_succ_of_lt (ih h)

theorem head?_labelDepths_cons :
    (labelDepths (labelled :: around)).head? = some around.length ↔ labelled = true := by
  cases labelled with
  | true => simp [labelDepths]
  | false =>
    simp only [labelDepths, Bool.false_eq_true, if_false, List.nil_append, iff_false]
    intro h
    exact Nat.lt_irrefl _ (lt_of_mem_labelDepths (List.mem_of_head? h))

/-- Labels are forgotten where their blocks end, and not before. -/
theorem dropWhile_labelDepths {n : Nat} (h : flags.length ≤ n + 1) :
    (labelDepths flags).dropWhile (n < ·) = labelDepths flags := by
  cases hd : labelDepths flags with
  | nil => rfl
  | cons m r =>
    have hm : m < flags.length := lt_of_mem_labelDepths (by simp [hd])
    rw [List.dropWhile_cons_of_neg (by simp; omega)]

theorem dropWhile_labelDepths_cons :
    (labelDepths (inner :: labelled :: around)).dropWhile (around.length < ·) =
      labelDepths (labelled :: around) := by
  rw [labelDepths]
  cases inner with
  | false => exact dropWhile_labelDepths (Nat.le_refl _)
  | true =>
    rw [if_pos rfl, List.singleton_append, List.dropWhile_cons_of_pos (by simp)]
    exact dropWhile_labelDepths (Nat.le_refl _)

/-! ## One line -/

/-- The state in front of a line of the block at hand; where `fresh` is true, no statement is left
open. -/
structure State.Within (labelled : Bool) (around : List Bool) (fresh : Bool) (s : State) : Prop
    where
  depth_eq : s.depth = around.length
  parens_eq : s.parens = 0
  carry_eq : s.carry = .code
  labels_eq : s.labels = labelDepths (labelled :: around)
  ends : fresh = true → endsStatement s.previous = true

namespace State.Within

variable {s : State} {unit code line ws : Text} {u : Nat}

theorem levelOf_eq (h : s.Within labelled around fresh) :
    s.levelOf code = if closesBlock code then around.length - 1
      else around.length + (labelled && !isLabel code).toNat := by
  have hhead : decide (s.labels.head? = some s.depth) = labelled := by
    rw [h.labels_eq, h.depth_eq]
    simp [head?_labelDepths_cons]
  rw [State.levelOf, hhead, h.depth_eq]
  cases (labelled && !isLabel code) <;> rfl

theorem moved_eq (h : s.Within labelled around fresh) (hc : IsBare code)
    (hw : ∀ c ∈ ws, isIndent c = true)
    (hfirst : fresh = true ∨ opensBlock code = true ∨ closesBlock code = true) :
    s.moved unit (ws ++ code) = Row.text unit ⟨if closesBlock code then around.length - 1
      else around.length + (labelled && !isLabel code).toNat, code⟩ := by
  have hcontinues : s.continues code = false := by
    rw [State.continues, h.parens_eq]
    rcases hfirst with hf | hf | hf
    · simp [h.ends hf]
    · simp [hf]
    · simp [hf]
  rw [State.moved_of_not_continues h.carry_eq hc hw hcontinues, h.levelOf_eq]

theorem next_blank (h : s.Within labelled around fresh) (hb : isBlankLine line = true) :
    (s.next u line).Within labelled around fresh := by
  rw [State.next_of_blank h.carry_eq hb, h.labels_eq, h.depth_eq]
  exact ⟨rfl, h.parens_eq, h.carry_eq, dropWhile_labelDepths (Nat.le_refl _), h.ends⟩

theorem nextLabels_eq (h : s.Within labelled around fresh) (hc : IsBare code)
    (hw : ∀ c ∈ ws, isIndent c = true) :
    s.nextLabels code (ws ++ code) =
      (labelDepths ((labelled || isLabel code) :: around)).dropWhile (s.nextDepth code < ·) := by
  rw [State.nextLabels, State.fixed_of_isBare h.carry_eq hc hw, h.labels_eq, h.depth_eq]
  congr 1
  cases hl : isLabel code with
  | false => simp
  | true =>
    cases labelled with
    | true => simp [head?_labelDepths_cons]
    | false =>
      have hne : (labelDepths (false :: around)).head? ≠ some around.length := by
        simp [head?_labelDepths_cons]
      simp only [Bool.not_false, Bool.true_and, decide_eq_true hne, if_true, Bool.or_true]
      rfl

/-- After a line with as many opening as closing braces the same block is at hand. -/
theorem next_line (h : s.Within labelled around fresh) {kind : LineKind} (hc : kind.Completes code)
    (hw : ∀ c ∈ ws, isIndent c = true) (fresh' : Bool)
    (he : fresh' = true → endsStatement code = true) :
    (s.next u (ws ++ code)).Within (labelled || isLabel code) around fresh' := by
  have hparens : s.nextParens code = 0 := by
    rw [State.nextParens, h.parens_eq, Nat.zero_add, hc.brackets, Nat.sub_self]
  have hdepth : s.nextDepth code = around.length := by
    rw [State.nextDepth, h.depth_eq, hc.braces, Nat.add_sub_cancel]
  have hlabels := h.nextLabels_eq hc.toIsBare hw
  rw [hdepth, dropWhile_labelDepths (Nat.le_refl _)] at hlabels
  rw [State.next_of_isBare h.carry_eq hc.toIsBare hw]
  exact ⟨hdepth, hparens, rfl, hlabels, he⟩

theorem next_opening (h : s.Within labelled around fresh) (hw : ∀ c ∈ ws, isIndent c = true) :
    (s.next u (ws ++ [.char '\x7b'])).Within false (labelled :: around) true := by
  have hc := isCode_brace.1.isBare
  have hdepth : s.nextDepth ['\x7b'] = (labelled :: around).length := by
    rw [State.nextDepth, h.depth_eq]
    rfl
  have hlabels := h.nextLabels_eq hc hw
  have hno : isLabel ['\x7b'] = false := rfl
  rw [hdepth, hno, Bool.or_false, dropWhile_labelDepths (Nat.le_succ _)] at hlabels
  have hparens : s.nextParens ['\x7b'] = 0 := by
    rw [State.nextParens, h.parens_eq]
    rfl
  rw [State.next_of_isBare h.carry_eq hc hw]
  exact ⟨hdepth, hparens, rfl, hlabels, fun _ => rfl⟩

theorem next_closing (h : s.Within inner (labelled :: around) fresh)
    (hw : ∀ c ∈ ws, isIndent c = true) :
    (s.next u (ws ++ [.char '\x7d'])).Within labelled around true := by
  have hc := isCode_brace.2.isBare
  have hdepth : s.nextDepth ['\x7d'] = around.length := by
    rw [State.nextDepth, h.depth_eq]
    rfl
  have hlabels := h.nextLabels_eq hc hw
  have hno : isLabel ['\x7d'] = false := rfl
  rw [hdepth, hno, Bool.or_false, dropWhile_labelDepths_cons] at hlabels
  have hparens : s.nextParens ['\x7d'] = 0 := by
    rw [State.nextParens, h.parens_eq]
    rfl
  rw [State.next_of_isBare h.carry_eq hc hw]
  exact ⟨hdepth, hparens, rfl, hlabels, fun _ => rfl⟩

end State.Within

/-! ## All lines -/

theorem isLabel_eq {kind : LineKind} {code : Text} (h : kind.Completes code) :
    isLabel code = decide (kind = .label) := by
  rw [Bool.eq_iff_iff, decide_eq_true_iff]
  exact h.label_iff

theorem endsStatement_of_isLabel {code : Text} (h : isLabel code = true) :
    endsStatement code = true := by
  simp [endsStatement, getLast?_of_isLabel h]

/-- A pass puts the next row at its level, and is then in front of the rows that are left. -/
theorem Laid.step {s : State} {unit ws : Text} {r : Row} {rows : List Row}
    (h : Laid labelled around fresh (r :: rows)) (hs : s.Within labelled around fresh)
    (hw : ∀ c ∈ ws, isIndent c = true) :
    s.moved unit (ws ++ r.code) = r.text unit ∧
      ∃ labelled' around' fresh', Laid labelled' around' fresh' rows ∧
        (s.next unit.length (ws ++ r.code)).Within labelled' around' fresh' := by
  cases h with
  | statement hc rest =>
    have hl := isLabel_eq hc
    have hnext := hs.next_line (u := unit.length) hc hw true fun _ => hc.ends rfl
    rw [hl] at hnext
    refine ⟨?_, _, _, _, rest, by simpa using hnext⟩
    rw [hs.moved_eq hc.toIsBare hw (Or.inl rfl), hc.not_closing, hl]
    simp
  | label hc rest =>
    have hl := isLabel_eq hc
    have hnext := hs.next_line (u := unit.length) hc hw true
      fun _ => endsStatement_of_isLabel hl
    rw [hl] at hnext
    refine ⟨?_, _, _, _, rest, by simpa using hnext⟩
    rw [hs.moved_eq hc.toIsBare hw (Or.inl rfl), hc.not_closing, hl]
    simp
  | header hc rest =>
    have hl := isLabel_eq hc
    have hnext := hs.next_line (u := unit.length) hc hw false (by simp)
    rw [hl] at hnext
    refine ⟨?_, _, _, _, rest, by simpa using hnext⟩
    rw [hs.moved_eq hc.toIsBare hw (Or.inl rfl), hc.not_closing, hl]
    simp
  | opening rest =>
    refine ⟨?_, _, _, _, rest, hs.next_opening hw⟩
    rw [hs.moved_eq isCode_brace.1.isBare hw (Or.inr (Or.inl rfl))]
    exact congrArg (fun b : Bool => Row.text unit ⟨around.length + b.toNat, ['\x7b']⟩)
      (Bool.and_true labelled)
  | closing rest =>
    refine ⟨?_, _, _, _, rest, hs.next_closing hw⟩
    rw [hs.moved_eq isCode_brace.2.isBare hw (Or.inl rfl)]
    rfl

/-- A pass puts the rows of an outline at their levels. -/
theorem relaid_rows {unit : Text} (f : Outline LineKind.Completes) {ls : List Line}
    (hl : codeOf (ls.map Line.content) = (f.rows 0 false).map Row.code) :
    relaid unit {} ls = indented unit (f.rows 0 false) ls := by
  have hstart : ({} : State).Within false [] true := ⟨rfl, rfl, rfl, rfl, fun _ => rfl⟩
  refine relaid_eq_indented_of_step
    (fun rows s => ∃ labelled around fresh, Laid labelled around fresh rows ∧
      s.Within labelled around fresh) ?_ ?_ ⟨_, _, _, laid_rows f, hstart⟩ hl
  · rintro rows s line ⟨labelled, around, fresh, h, hs⟩ hb
    exact ⟨labelled, around, fresh, h, hs.next_blank hb⟩
  · rintro r rows s ws ⟨labelled, around, fresh, h, hs⟩ hw
    exact h.step hs hw

/-- How the lines of a block look: its braces have the same indentation exactly if the block does
not stand under a label; each line directly inside is indented deeper than the closing brace, and
then than the opening one. -/
structure Block.Shown (b : Block) (lines : List Text) (opening closing : Text) : Prop where
  opening_eq : lines[b.opening]? = some (opening ++ [.char '\x7b'])
  closing_eq : lines[b.closing]? = some (closing ++ [.char '\x7d'])
  isIndent : ∀ c ∈ opening ++ closing, isIndent c = true
  aligned_iff : opening = closing ↔ b.labelled = false
  inside : ∀ k ∈ b.inside, ∃ line, lines[k]? = some line ∧
    closing.length < (indentOf line).length ∧
    (b.labelled = false → opening.length < (indentOf line).length)

theorem Row.level_le_indentOf {unit : Text} {c : CodePoint} (hu : IsUnit c unit) (r : Row) :
    r.level * unit.length ≤ (indentOf (r.text unit)).length := by
  rw [Row.text, indentOf, List.takeWhile_append_of_pos (isIndent_of_mem_level hu r.level),
    List.length_append, length_level]
  exact Nat.le_add_right _ _

theorem Block.Stands.shown {b : Block} {all : List Row} {level : Nat} {unit : Text} {c : CodePoint}
    (hu : IsUnit c unit) (h : b.Stands all level) :
    b.Shown (all.map (Row.text unit)) (List.replicate (level + b.labelled.toNat) unit).flatten
      (List.replicate level unit).flatten := by
  have hpos : 0 < unit.length := List.length_pos_of_ne_nil hu.ne_nil
  refine ⟨?_, ?_, ?_, ?_, ?_⟩
  · rw [List.getElem?_map, h.opening]
    rfl
  · rw [List.getElem?_map, h.closing]
    rfl
  · exact List.forall_mem_append.mpr ⟨isIndent_of_mem_level hu _, isIndent_of_mem_level hu _⟩
  · cases hb : b.labelled with
    | false => simp
    | true =>
      simp only [Bool.toNat_true, Bool.true_eq_false, iff_false]
      intro heq
      have hlen := congrArg List.length heq
      rw [length_level, length_level, Nat.succ_mul] at hlen
      omega
  · intro k hk
    obtain ⟨r, hr, hlt⟩ := h.inside k hk
    have hle := Row.level_le_indentOf hu r
    have hmul : (level + 1) * unit.length ≤ r.level * unit.length :=
      Nat.mul_le_mul_right _ hlt
    rw [Nat.succ_mul] at hmul
    refine ⟨r.text unit, by rw [List.getElem?_map, hr]; rfl, ?_, ?_⟩
    · rw [length_level]
      omega
    · intro hb
      rw [hb, length_level]
      simp only [Bool.toNat_false, Nat.add_zero]
      omega

/-- For every outline that stands on the lines of a document, with blank lines anywhere and any
spaces and tabs in front: a pass succeeds, and afterwards the lines that are not blank are those of
the outline, in which the braces of a block are aligned exactly if it does not stand in a section.
-/
theorem format_aligns_braces_iff (f : Outline LineKind.Completes) {d : Document} {tabSize : Int}
    (hk : 1 ≤ tabSize) (hf : codeOf d.lines = (f.rows 0 false).map Row.code) :
    ∃ edits t, format d tabSize = .ok edits ∧ d.applyEdits edits = .ok t ∧
      (Document.linesOf t).filter (!isBlankLine ·) =
        (f.rows 0 false).map (Row.text (d.indentUnit tabSize)) ∧
      ∀ b ∈ f.blocks 0 false, ∃ opening closing,
        b.Shown ((Document.linesOf t).filter (!isBlankLine ·)) opening closing := by
  have hd := Line.reads_read d.text
  have hu : IsUnit _ (d.indentUnit tabSize) := isUnit_unitFor hk d.lines
  rw [Document.lines_eq hd] at hf
  have hreads := reads_relaid hu {} hd
  obtain ⟨edits, hedits, happly, -⟩ := applyEdits_format hk hd
  rw [relaid_rows f hf] at hreads happly
  have hlines : (Document.linesOf (Line.join (indented (d.indentUnit tabSize) (f.rows 0 false)
      (Line.read d.text)))).filter (!isBlankLine ·) =
        (f.rows 0 false).map (Row.text (d.indentUnit tabSize)) := by
    rw [hreads.linesOf_eq]
    exact filter_indented hf
  refine ⟨edits, _, hedits, happly, hlines, ?_⟩
  intro b hb
  have hall : (f.rows 0 false).drop 0 = f.rows 0 false ++ [] := by simp
  obtain ⟨level, hstands⟩ := f.exists_stands hall hb
  rw [hlines]
  exact ⟨_, _, hstands.shown hu⟩

/-- A conditional in the section of a switch, with line breaks of both kinds. -/
theorem format_aligns_braces_iff_switch :
    ∃ (f : Outline LineKind.Completes) (d : Document),
      d.text = "void M()\n\x7b\nswitch (x)\n\x7b\r\n\tcase 1:\n  if (a / b)\n\x7b\nF();\n\x7d\n\nbreak;\n\x7d\n\x7d" ∧
      f.blocks 0 false = [⟨1, 11, [2, 3, 10], false⟩, ⟨3, 10, [4, 5, 6, 8, 9], false⟩,
        ⟨6, 8, [7], true⟩] ∧
      codeOf d.lines = (f.rows 0 false).map Row.code ∧
      ∃ edits t, format d 4 = .ok edits ∧ d.applyEdits edits = .ok t ∧
        (Document.linesOf t).filter (!isBlankLine ·) =
          (f.rows 0 false).map (Row.text (d.indentUnit 4)) ∧
        ∀ b ∈ f.blocks 0 false, ∃ opening closing,
          b.Shown ((Document.linesOf t).filter (!isBlankLine ·)) opening closing := by
  refine ⟨.block (some ⟨"void M()", by decide⟩)
    (.block (some ⟨"switch (x)", by decide⟩)
      (.label "case 1:" (by decide)
        (.block (some ⟨"if (a / b)", by decide⟩)
          (.statement "F();" (by decide) .nil)
          (.statement "break;" (by decide) .nil))) .nil) .nil,
    ⟨"void M()\n\x7b\nswitch (x)\n\x7b\r\n\tcase 1:\n  if (a / b)\n\x7b\nF();\n\x7d\n\nbreak;\n\x7d\n\x7d", none⟩,
    rfl, rfl, ?shown, format_aligns_braces_iff _ (by decide) ?shown⟩
  decide +kernel

/-- Under a label the braces of a block come to stand apart, also where they were aligned. -/
theorem format_misaligns_braces_in_section :
    ∃ (f : Outline LineKind.Completes) (d : Document) (edits : List Edit) (t : Text),
      d.text = "switch (x)\n\x7b\n case 1:\n  \x7b\n   F();\n  \x7d\n\x7d" ∧
      codeOf d.lines = (f.rows 0 false).map Row.code ∧
      format d 1 = .ok edits ∧ d.applyEdits edits = .ok t ∧
      ∃ b ∈ f.blocks 0 false, ∃ opening closing,
        (Document.linesOf t)[b.opening]? = some opening ∧
        (Document.linesOf t)[b.closing]? = some closing ∧ indentOf opening ≠ indentOf closing := by
  let d : Document := ⟨"switch (x)\n\x7b\n case 1:\n  \x7b\n   F();\n  \x7d\n\x7d", none⟩
  let f : Outline LineKind.Completes := .block (some ⟨"switch (x)", by decide⟩)
    (.label "case 1:" (by decide) (.block none (.statement "F();" (by decide) .nil) .nil)) .nil
  have hcode : codeOf d.lines = (f.rows 0 false).map Row.code := by decide +kernel
  have hrelaid : Line.join (relaid (d.indentUnit 1) {} (Line.read d.text)) =
      "switch (x)\n\x7b\n case 1:\n  \x7b\n  F();\n \x7d\n\x7d" := by
    decide +kernel
  have htab : (1 : Int) ≤ 1 := by decide
  obtain ⟨edits, hedits, happly, -⟩ := applyEdits_format htab (Line.reads_read d.text)
  rw [hrelaid] at happly
  have hblock : ⟨3, 5, [4], true⟩ ∈ f.blocks 0 false := by decide
  refine ⟨f, d, edits, _, rfl, hcode, hedits, happly, _, hblock, "  \x7b", " \x7d", ?_⟩
  decide +kernel

end CSharpActions.Layout
