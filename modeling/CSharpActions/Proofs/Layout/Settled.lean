import CSharpActions.Proofs.Layout.Outline

/-!
# Settled rows

Rows are settled where each has the depth that the braces above it make, or one less if it begins
with a closing brace. A pass over settled rows has no edits, whatever statements they continue: a
line that goes on with a statement moves with it, and nothing moves.
-/
namespace CSharpActions.Layout

open Document (isIndent isBlankLine indentOf)

/-- The depth behind a line of code. -/
def depthAfter (n : Nat) (code : Text) : Nat :=
  n + code.count (.char '\x7b') - code.count (.char '\x7d')

/-- The depth behind some rows. -/
def depthBelow (n : Nat) (rows : List Row) : Nat := rows.foldl (fun n r => depthAfter n r.code) n

/-- Where the depth is `n`, the row has its place. -/
structure Row.Settled (n : Nat) (r : Row) : Prop where
  bare : IsBare r.code
  not_label : isLabel r.code = false
  level_eq : r.level = if closesBlock r.code then n - 1 else n

def Settled : Nat → List Row → Prop
  | _, [] => True
  | n, r :: rows => r.Settled n ∧ Settled (depthAfter n r.code) rows

/-- The state at depth `n`, where no line has moved. -/
structure State.Settled (n : Nat) (s : State) : Prop where
  depth_eq : s.depth = n
  shift_eq : s.shift = 0
  carry_eq : s.carry = .code
  labels_eq : s.labels = []

variable {n : Nat} {rows rows' : List Row} {r : Row} {s : State} {unit : Text} {c : CodePoint}

theorem settled_append :
    Settled n (rows ++ rows') ↔ Settled n rows ∧ Settled (depthBelow n rows) rows' := by
  induction rows generalizing n with
  | nil => simp [Settled, depthBelow]
  | cons r rows ih =>
    rw [List.cons_append, Settled, Settled, ih, and_assoc]
    rfl

/-- A statement or header without labels; brackets may be left open. -/
def LineKind.Unlabelled (kind : LineKind) (code : Text) : Prop := kind.Admits code ∧ kind ≠ .label

instance (kind : LineKind) (code : Text) : Decidable (kind.Unlabelled code) :=
  inferInstanceAs (Decidable (_ ∧ _))

theorem LineKind.Unlabelled.depthAfter_eq {kind : LineKind} {code : Text}
    (h : kind.Unlabelled code) (n : Nat) : depthAfter n code = n := by
  rw [depthAfter, h.1.braces, Nat.add_sub_cancel]

theorem LineKind.Unlabelled.settled {kind : LineKind} {code : Text} (h : kind.Unlabelled code)
    (n : Nat) : Row.Settled n ⟨n, code⟩ where
  bare := h.1.toIsBare
  not_label := Bool.eq_false_iff.mpr fun hl => h.2 (h.1.label_iff.mp hl)
  level_eq := by rw [h.1.not_closing, if_neg Bool.false_ne_true]

theorem LineKind.Unlabelled.settled_cons {kind : LineKind} {code : Text}
    (h : kind.Unlabelled code) (hs : Settled n rows) : Settled n (⟨n, code⟩ :: rows) := by
  refine ⟨h.settled n, ?_⟩
  rwa [h.depthAfter_eq n]

/-- A block may stand between settled rows, if what is inside leads back to its depth. -/
theorem settled_block (hs : Settled (n + 1) (rows' ++ ⟨n, ['\x7d']⟩ :: rows)) :
    Settled n (⟨n, ['\x7b']⟩ :: (rows' ++ ⟨n, ['\x7d']⟩ :: rows)) :=
  ⟨⟨isCode_brace.1.isBare, rfl, rfl⟩, hs⟩

theorem settled_closing (hs : Settled n rows) : Settled (n + 1) (⟨n, ['\x7d']⟩ :: rows) :=
  ⟨⟨isCode_brace.2.isBare, rfl, rfl⟩, hs⟩

/-- The rows of an outline without labels are settled, whatever settled rows follow. -/
theorem settled_rows_append (f : Outline LineKind.Unlabelled) (h : Settled n rows) :
    Settled n (f.rows n false ++ rows) := by
  induction f generalizing n rows with
  | nil => exact h
  | statement code hc rest ih => exact hc.settled_cons (ih h)
  | label code hc rest ih => exact absurd rfl hc.2
  | block header body rest ihBody ihRest =>
    have hblock := settled_block (ihBody (settled_closing (ihRest h)))
    rw [Outline.rows, List.append_assoc, List.cons_append, List.append_assoc]
    cases header with
    | none => exact hblock
    | some header => exact header.2.settled_cons hblock

theorem settled_rows (f : Outline LineKind.Unlabelled) : Settled 0 (f.rows 0 false) := by
  have h : Settled 0 (f.rows 0 false ++ []) := settled_rows_append f trivial
  rwa [List.append_nil] at h

/-- A row of an outline begins with a closing brace only if it has nothing else. -/
theorem code_eq_of_closesBlock {P : LineKind → Text → Prop}
    (hP : ∀ kind code, P kind code → closesBlock code = false) (f : Outline P) {level : Nat}
    {labelled : Bool} (hr : r ∈ f.rows level labelled) (hc : closesBlock r.code = true) :
    r.code = [.char '\x7d'] := by
  have hno : ∀ {kind code}, P kind code → closesBlock code = true → code = [.char '\x7d'] := by
    intro kind code h hcode
    rw [hP kind code h] at hcode
    exact absurd hcode Bool.false_ne_true
  induction f generalizing level labelled with
  | nil => simp [Outline.rows] at hr
  | statement code h rest ih =>
    rcases List.mem_cons.mp hr with rfl | hr
    · exact hno h hc
    · exact ih hr
  | label code h rest ih =>
    rcases List.mem_cons.mp hr with rfl | hr
    · exact hno h hc
    · exact ih hr
  | block header body rest ihBody ihRest =>
    simp only [Outline.rows, List.mem_append, List.mem_cons, List.mem_map] at hr
    rcases hr with ⟨h, -, rfl⟩ | rfl | hr | rfl | hr
    · exact hno h.2 hc
    · exact absurd hc Bool.false_ne_true
    · exact ihBody hr
    · rfl
    · exact ihRest hr

/-- A row of an outline that is no closing brace stands at the depth that the rows above make. -/
theorem level_eq_depthBelow (f : Outline LineKind.Unlabelled)
    (hrows : f.rows 0 false = rows ++ r :: rows') (hr : r.code ≠ [.char '\x7d']) :
    Settled 0 rows ∧ Settled (depthBelow 0 rows) (r :: rows') ∧ r.level = depthBelow 0 rows := by
  have hsettled := settled_rows f
  rw [hrows, settled_append] at hsettled
  refine ⟨hsettled.1, hsettled.2, ?_⟩
  have hmem : r ∈ f.rows 0 false := by
    rw [hrows]
    exact List.mem_append_right rows List.mem_cons_self
  have hnot : closesBlock r.code = false := Bool.eq_false_iff.mpr fun hc =>
    hr (code_eq_of_closesBlock (fun _ _ h => h.1.not_closing) f hmem hc)
  rw [hsettled.2.1.level_eq, hnot, if_neg Bool.false_ne_true]

/-! ## A pass -/

theorem indentOf_text (hu : IsUnit c unit) (hr : IsBare r.code) :
    indentOf (r.text unit) = (List.replicate r.level unit).flatten := by
  have h := Document.indentOf_append_body (isIndent_of_mem_level hu r.level) r.code
  rwa [hr.dropWhile_eq] at h

/-- The indentation of a level is that of as many columns. -/
theorem copies_length_level (hu : IsUnit c unit) (n : Nat) :
    Text.copies (List.replicate n unit).flatten.length (unit.headD (.char ' ')) =
      (List.replicate n unit).flatten := by
  obtain ⟨-, m, rfl⟩ := hu
  have hhead : (Text.copies (m + 1) c).headD (.char ' ') = c := by
    rw [Text.copies, List.replicate_succ, List.headD_cons]
  rw [flatten_replicate_copies, hhead, List.length_replicate]

theorem State.Settled.placeLine_eq (hu : IsUnit c unit) (hs : s.Settled n) (hr : r.Settled n) :
    s.placeLine (r.text unit) = if s.continues r.code then
      .column (indentOf (r.text unit)).length else .level r.level := by
  have hw := isIndent_of_mem_level hu r.level
  have hlevel : s.levelOf r.code = r.level := by
    rw [State.levelOf, hs.labels_eq, hs.depth_eq, hr.level_eq]
    simp
  have hfixed : s.fixed (r.text unit) = false := fixed_of_isBare hs.carry_eq hr.bare hw
  have hcode : Text.trim (stripLine s.carry (r.text unit)).1 = r.code :=
    trim_stripLine_of_isBare hs.carry_eq hr.bare hw
  rw [placeLine_of_not_fixed hfixed, hcode, hlevel, hs.shift_eq, Int.add_zero, Int.toNat_natCast]

/-- A settled row stays where it is, and so do the rows below it. -/
theorem State.Settled.step (hu : IsUnit c unit) (hs : s.Settled n) (hr : r.Settled n) :
    s.moved unit (r.text unit) = r.text unit ∧
      (s.next unit.length (r.text unit)).Settled (depthAfter n r.code) := by
  have hw := isIndent_of_mem_level hu r.level
  have hindent := indentOf_text hu hr.bare
  have hplace := hs.placeLine_eq hu hr
  refine ⟨?_, ?_⟩
  · have hdrop : (r.text unit).dropWhile isIndent = r.code := by
      rw [Row.text, Document.dropWhile_isIndent_append hw, hr.bare.dropWhile_eq]
    rw [State.moved, State.newIndent, hplace, hdrop, hindent, Row.text]
    split
    · rw [Placement.spread, copies_length_level hu]
    · rfl
  · have hshift : s.nextShift unit.length r.code (r.text unit) = 0 := by
      have hcode : Text.trim (stripLine s.carry (r.text unit)).1 = r.code :=
        trim_stripLine_of_isBare hs.carry_eq hr.bare hw
      rw [State.placeLine, hcode] at hplace
      rw [State.nextShift, hplace, hindent, length_level]
      cases s.continues r.code with
      | true => exact hs.shift_eq
      | false => simp [hr.bare.ne_nil]
    have hnext := next_of_isBare (u := unit.length) hs.carry_eq hr.bare hw
    rw [Row.text, hnext]
    refine ⟨by rw [State.nextDepth, hs.depth_eq]; rfl, hshift, rfl, ?_⟩
    simp [State.nextLabels, hr.not_label, hs.labels_eq]

theorem State.Settled.next_blank (hs : s.Settled n) {line : Text} {u : Nat}
    (hb : isBlankLine line = true) : (s.next u line).Settled n := by
  rw [next_of_blank hs.carry_eq hb, hs.labels_eq]
  exact ⟨hs.depth_eq, hs.shift_eq, hs.carry_eq, rfl⟩

/-- A pass leaves all lines where they are. -/
theorem relaid_of_settled (hu : IsUnit c unit) {ls : List Line} (h : Settled n rows)
    (hs : s.Settled n)
    (hl : (ls.map Line.content).filter (!isBlankLine ·) = rows.map (Row.text unit)) :
    relaid unit s ls = ls := by
  induction ls generalizing n s rows with
  | nil => rfl
  | cons l ls ih =>
    rw [List.map_cons] at hl
    cases hb : isBlankLine l.content with
    | true =>
      rw [List.filter_cons_of_neg (by simp [hb])] at hl
      have hstays : s.moved unit l.content = l.content :=
        moved_of_fixed (fixed_of_stays (Or.inr (Or.inl hb)))
      rw [relaid, hstays, ih h (hs.next_blank hb) hl]
    | false =>
      rw [List.filter_cons_of_pos (by simp [hb])] at hl
      obtain ⟨r, rows, rfl, hr, hrows⟩ := List.map_eq_cons_iff.mp hl.symm
      obtain ⟨hmoved, hnext⟩ := hs.step hu h.1
      rw [hr] at hmoved hnext
      rw [relaid, hmoved, ih h.2 hnext hrows.symm]

/-- A pass over a document with settled rows has no edits. -/
theorem format_of_settled {d : Document} {tabSize : Int} (hk : 1 ≤ tabSize) (h : Settled 0 rows)
    (hl : d.lines.filter (!isBlankLine ·) = rows.map (Row.text (d.indentUnit tabSize))) :
    format d tabSize = .ok [] := by
  have hd := Line.reads_read d.text
  have hu : IsUnit _ (d.indentUnit tabSize) := isUnit_unitFor hk d.lines
  rw [Document.lines_eq hd] at hl
  have hstart : ({} : State).Settled 0 := ⟨rfl, rfl, rfl, rfl⟩
  obtain ⟨edits, hedits, -, hnil⟩ := applyEdits_format hk hd
  rw [hedits, hnil.mpr (relaid_of_settled hu h hstart hl)]

/-! ## Lines that are put between others -/

theorem IsBare.isBlankLine_append {code : Text} (h : IsBare code) (ws : Text) :
    isBlankLine (ws ++ code) = false := by
  obtain ⟨b, r, rfl⟩ := List.exists_cons_of_ne_nil h.ne_nil
  have hb : Text.isBlank b = false :=
    Text.isBlank_of_head?_trim (t := b :: r) (by rw [h.trim_eq, List.head?_cons])
  simp [isBlankLine, hb]

theorem eq_of_head?_text (hu : IsUnit c unit) (hr : IsBare r.code)
    {x : CodePoint} (h : (r.text unit).head? = some x) (hx : isIndent x = true) : x = c := by
  have hmem : x ∈ indentOf (r.text unit) := by
    cases ht : r.text unit with
    | nil => simp [ht] at h
    | cons b t =>
      obtain rfl : b = x := by simpa [ht] using h
      rw [indentOf, List.takeWhile_cons_of_pos hx]
      exact List.mem_cons_self
  rw [indentOf_text hu hr] at hmem
  obtain ⟨-, m, rfl⟩ := hu
  rw [flatten_replicate_copies] at hmem
  exact List.eq_of_mem_replicate hmem

/-- Lines that begin with the unit, or with no indentation, do not change what the unit is. -/
theorem unitFor_insert {pre new post : List Text} {tabSize : Int}
    (h : ∀ t ∈ new, ∀ x, t.head? = some x → isIndent x = true → x = indentChar (pre ++ post)) :
    Document.unitFor (pre ++ (new ++ post)) tabSize = Document.unitFor (pre ++ post) tabSize := by
  have hadd : ∀ x,
      starting x (pre ++ (new ++ post)) = starting x new + starting x (pre ++ post) := by
    intro x
    simp only [starting, List.countP_append]
    omega
  have hno : ∀ x, isIndent x = true → x ≠ indentChar (pre ++ post) → starting x new = 0 := by
    intro x hx hne
    refine List.countP_eq_zero.mpr fun t ht hs => hne ?_
    exact h t ht x (of_decide_eq_true hs) hx
  have hvote :
      Document.prefersTabs (pre ++ (new ++ post)) = Document.prefersTabs (pre ++ post) := by
    rw [Bool.eq_iff_iff, prefersTabs_iff, prefersTabs_iff, hadd, hadd]
    cases ht : Document.prefersTabs (pre ++ post) with
    | true =>
      have hchar : indentChar (pre ++ post) = .char '\t' := by rw [indentChar, ht, if_pos rfl]
      have hzero := hno (.char ' ') (by decide) (by rw [hchar]; decide)
      have hlt := (prefersTabs_iff _).mp ht
      omega
    | false =>
      have hchar : indentChar (pre ++ post) = .char ' ' := by
        rw [indentChar, ht, if_neg Bool.false_ne_true]
      have hzero := hno (.char '\t') (by decide) (by rw [hchar]; decide)
      have hle := mt (prefersTabs_iff (pre ++ post)).mpr (Bool.eq_false_iff.mp ht)
      omega
  rw [Document.unitFor, hvote, Document.unitFor]

/-- Rows in the unit of the lines around them, with a blank line behind them, do not change it. -/
theorem unitFor_insert_rows {pre post : List Text} {tabSize : Int} (hk : 1 ≤ tabSize)
    (hbare : ∀ r ∈ rows, IsBare r.code) (hunit : unit = Document.unitFor (pre ++ post) tabSize) :
    Document.unitFor (pre ++ ((rows.map (Row.text unit) ++ [[]]) ++ post)) tabSize = unit := by
  have hu : IsUnit (indentChar (pre ++ post)) unit := hunit ▸ isUnit_unitFor hk (pre ++ post)
  rw [hunit]
  refine unitFor_insert fun t ht x hx hi => ?_
  rw [← hunit, List.mem_append, List.mem_map] at ht
  rcases ht with ⟨r, hr, rfl⟩ | ht
  · exact eq_of_head?_text hu (hbare r hr) hx hi
  · rw [List.mem_singleton.mp ht] at hx
    simp at hx

theorem filter_map_text (hbare : ∀ r ∈ rows, IsBare r.code) :
    (rows.map (Row.text unit)).filter (!isBlankLine ·) = rows.map (Row.text unit) := by
  refine List.filter_eq_self.mpr fun t ht => ?_
  obtain ⟨r, hr, rfl⟩ := List.mem_map.mp ht
  simp [Row.text, (hbare r hr).isBlankLine_append]

/-- A line that is not blank stands on a row of its own. -/
theorem exists_row {pre post : List Text} {line : Text} (hb : isBlankLine line = false)
    (h : (pre ++ line :: post).filter (!isBlankLine ·) = rows.map (Row.text unit)) :
    ∃ above r below, rows = above ++ r :: below ∧ line = r.text unit ∧
      pre.filter (!isBlankLine ·) = above.map (Row.text unit) ∧
      post.filter (!isBlankLine ·) = below.map (Row.text unit) := by
  rw [List.filter_append, List.filter_cons_of_pos (by simp [hb])] at h
  obtain ⟨above, rest, rfl, habove, hrest⟩ := List.map_eq_append_iff.mp h.symm
  obtain ⟨r, below, rfl, hr, hbelow⟩ := List.map_eq_cons_iff.mp hrest
  exact ⟨above, r, below, rfl, hr.symm, habove.symm, hbelow.symm⟩

end CSharpActions.Layout
