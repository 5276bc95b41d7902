import CSharpActions.Proofs.Layout.Indentation

/-!
# Statements and blocks

A forest of statements and blocks is written with one line for each statement, header and brace.
From any indentation a pass makes its normal form: each line is indented by one unit for every block
around it. The state between two lines is the same wherever a statement can begin; only the depth
differs.
-/
namespace CSharpActions.Layout

open Document (isIndent isBlankLine)

/-- The code of a whole line: trimmed, without comments and literals, no preprocessor line, and with
as many closing as opening round and square brackets. -/
structure IsCode (code : Text) : Prop where
  trim_eq : Text.trim code = code
  ne_nil : code ≠ []
  plain : ∀ c ∈ code, c ≠ .char '"' ∧ c ≠ .char '\'' ∧ c ≠ .char '/'
  head_ne : code.head? ≠ some (.char '#')
  brackets : code.count (.char '(') + code.count (.char '[') =
    code.count (.char ')') + code.count (.char ']')

/-- A whole line of code, with its brackets in any number. -/
structure IsBare (code : Text) : Prop where
  trim_eq : Text.trim code = code
  ne_nil : code ≠ []
  no_quotes : CodePoint.char '"' ∉ code ∧ CodePoint.char '\'' ∉ code
  no_comments : Text.occursIn ['/', '/'] code = false ∧ Text.occursIn ['/', '*'] code = false
  head_ne : code.head? ≠ some (.char '#')

instance (code : Text) : Decidable (IsCode code) :=
  decidable_of_iff (Text.trim code = code ∧ code ≠ [] ∧
      (∀ c ∈ code, c ≠ .char '"' ∧ c ≠ .char '\'' ∧ c ≠ .char '/') ∧
      code.head? ≠ some (.char '#') ∧
      code.count (.char '(') + code.count (.char '[') =
        code.count (.char ')') + code.count (.char ']'))
    ⟨fun h => ⟨h.1, h.2.1, h.2.2.1, h.2.2.2.1, h.2.2.2.2⟩,
      fun h => ⟨h.trim_eq, h.ne_nil, h.plain, h.head_ne, h.brackets⟩⟩

structure Statement where
  code : Text
  isCode : IsCode code
  starts : code.head? ≠ some (.char '\x7b') ∧ code.head? ≠ some (.char '\x7d')
  ends : code.getLast? = some (.char ';') ∨ code.getLast? = some (.char '\x7d')
  braces : code.count (.char '\x7b') = code.count (.char '\x7d')

/-- What stands in front of a block. -/
structure Header where
  code : Text
  isCode : IsCode code
  no_braces : CodePoint.char '\x7b' ∉ code ∧ CodePoint.char '\x7d' ∉ code
  not_label : isLabel code = false

/-- Statements and blocks in a row, with what stands inside the blocks. -/
inductive Forest where
  | nil
  | statement (first : Statement) (rest : Forest)
  | block (header : Header) (body rest : Forest)

/-- A line of a forest: how many blocks are around it, and what stands on it. -/
structure Row where
  level : Nat
  code : Text
deriving DecidableEq, Repr

def Row.text (unit : Text) (r : Row) : Text := (List.replicate r.level unit).flatten ++ r.code

/-- The lines of a forest inside of the given number of blocks. -/
def Forest.rows (level : Nat) : Forest → List Row
  | nil => []
  | statement first rest => ⟨level, first.code⟩ :: rest.rows level
  | block header body rest =>
    ⟨level, header.code⟩ :: ⟨level, ['\x7b']⟩ ::
      (body.rows (level + 1) ++ ⟨level, ['\x7d']⟩ :: rest.rows level)

/-- What stands on the lines that are not blank, without its indentation. -/
def codeOf (lines : List Text) : List Text :=
  (lines.filter (!isBlankLine ·)).map (·.dropWhile isIndent)

/-- The lines with the rows put at their levels. Blank lines stay as they are. -/
def indented (unit : Text) : List Row → List Line → List Line
  | _, [] => []
  | [], l :: ls => l :: indented unit [] ls
  | r :: rows, l :: ls =>
    if isBlankLine l.content then l :: indented unit (r :: rows) ls
    else { l with content := r.text unit } :: indented unit rows ls

/-- Rows that can follow one another inside of `level` blocks; where `fresh` is false, a block opens
first. -/
inductive Nested : (level : Nat) → (fresh : Bool) → List Row → Prop
  | nil (level : Nat) : Nested level true []
  | statement {level : Nat} {rows : List Row} (s : Statement) (rest : Nested level true rows) :
      Nested level true (⟨level, s.code⟩ :: rows)
  | header {level : Nat} {rows : List Row} (h : Header) (rest : Nested level false rows) :
      Nested level true (⟨level, h.code⟩ :: rows)
  | opening {level : Nat} {rows : List Row} (rest : Nested (level + 1) true rows) :
      Nested level false (⟨level, ['\x7b']⟩ :: rows)
  | closing {level : Nat} {rows : List Row} (rest : Nested level true rows) :
      Nested (level + 1) true (⟨level, ['\x7d']⟩ :: rows)

/-- The rows of a forest are nested, whatever follows it. -/
theorem nested_rows_append (f : Forest) {level : Nat} {rest : List Row}
    (h : Nested level true rest) : Nested level true (f.rows level ++ rest) := by
  induction f generalizing level rest with
  | nil => exact h
  | statement first _ ih => exact .statement first (ih h)
  | block header body _ ihBody ihRest =>
    rw [Forest.rows, List.cons_append, List.cons_append, List.append_assoc]
    exact .header header (.opening (ihBody (.closing (ihRest h))))

theorem nested_rows (f : Forest) : Nested 0 true (f.rows 0) := by
  have h := nested_rows_append f (.nil 0)
  rwa [List.append_nil] at h

/-! ## One line -/

theorem scan_cons_of_bare {c : CodePoint} {r : Text} (hc : c ≠ .char '"' ∧ c ≠ .char '\'')
    (hr : CodePoint.char '"' ∉ r)
    (hs : c = .char '/' → r.head? ≠ some (.char '/') ∧ r.head? ≠ some (.char '*')) :
    scan (.carried .code) (c :: r) = emit [c] (scan (.carried .code) r) := by
  rw [scan]
  · simp [hc.1, hc.2]
  -- the other equations are for comments and literals
  all_goals
    rintro s rfl rfl
    simp_all

theorem occursIn_cons {p : Text} {c : CodePoint} {r : Text}
    (h : Text.occursIn p (c :: r) = false) :
    p.isPrefixOf (c :: r) = false ∧ Text.occursIn p r = false := by
  rwa [Text.occursIn, Bool.or_eq_false_iff] at h

/-- Without quotes and comments, all of a line is code. -/
theorem scan_of_bare {t : Text} (hq : CodePoint.char '"' ∉ t ∧ CodePoint.char '\'' ∉ t)
    (hc : Text.occursIn ['/', '/'] t = false ∧ Text.occursIn ['/', '*'] t = false) :
    scan (.carried .code) t = (t, .code) := by
  induction t with
  | nil => rfl
  | cons c r ih =>
    obtain ⟨hline, hline'⟩ := occursIn_cons hc.1
    obtain ⟨hblock, hblock'⟩ := occursIn_cons hc.2
    have hr := ih ⟨List.not_mem_of_not_mem_cons hq.1, List.not_mem_of_not_mem_cons hq.2⟩
      ⟨hline', hblock'⟩
    have hne : c ≠ .char '"' ∧ c ≠ .char '\'' :=
      ⟨(List.ne_of_not_mem_cons hq.1).symm, (List.ne_of_not_mem_cons hq.2).symm⟩
    rw [scan_cons_of_bare hne (List.not_mem_of_not_mem_cons hq.1), hr]
    · rfl
    · rintro rfl
      cases r with
      | nil => simp
      | cons d r =>
        simp only [List.isPrefixOf, Bool.and_true, beq_self_eq_true, Bool.true_and,
          beq_eq_false_iff_ne, ne_eq] at hline hblock
        simp only [List.head?_cons, ne_eq, Option.some.injEq]
        exact ⟨Ne.symm hline, Ne.symm hblock⟩

theorem not_occursIn_of_not_mem {c : CodePoint} {p t : Text} (h : c ∉ t) :
    Text.occursIn (c :: p) t = false := by
  rw [Bool.eq_false_iff, ne_eq, Text.occursIn_iff]
  rintro ⟨x, y, rfl⟩
  simp at h

variable {unit ws code line : Text} {level u : Nat} {fresh : Bool} {s : State} {rows : List Row}
  {r : Row}

theorem IsCode.isBare (h : IsCode code) : IsBare code := by
  have hslash : CodePoint.char '/' ∉ code := fun hm => (h.plain _ hm).2.2 rfl
  exact
    { trim_eq := h.trim_eq
      ne_nil := h.ne_nil
      no_quotes := ⟨fun hm => (h.plain _ hm).1 rfl, fun hm => (h.plain _ hm).2.1 rfl⟩
      no_comments := ⟨not_occursIn_of_not_mem hslash, not_occursIn_of_not_mem hslash⟩
      head_ne := h.head_ne }

theorem IsBare.stripLine_eq (h : IsBare code) (hw : ∀ c ∈ ws, isIndent c = true) :
    stripLine .code (ws ++ code) = (ws ++ code, .code) := by
  rw [stripLine, scan_append_of_isIndent hw, scan_of_bare h.no_quotes h.no_comments]
  rfl

theorem IsBare.trim_append (h : IsBare code) (hw : ∀ c ∈ ws, isIndent c = true) :
    Text.trim (ws ++ code) = code := by
  rw [Text.trim_blank_append fun c hc => Document.isBlank_of_isIndent (hw c hc), h.trim_eq]

theorem IsBare.dropWhile_eq (h : IsBare code) : code.dropWhile isIndent = code := by
  obtain ⟨c, r, rfl⟩ := List.exists_cons_of_ne_nil h.ne_nil
  have hc : Text.isBlank c = false :=
    Text.isBlank_of_head?_trim (t := c :: r) (by rw [h.trim_eq, List.head?_cons])
  refine List.dropWhile_cons_of_neg fun hi => ?_
  rw [Document.isBlank_of_isIndent hi] at hc
  exact absurd hc (by decide)

namespace State

theorem fixed_of_isBare (hs : s.carry = .code) (hc : IsBare code)
    (hw : ∀ c ∈ ws, isIndent c = true) : s.fixed (ws ++ code) = false := by
  rw [State.fixed, hc.trim_append hw, hs]
  simp [hc.ne_nil, hc.head_ne]

theorem trim_stripLine_of_isBare (hs : s.carry = .code) (hc : IsBare code)
    (hw : ∀ c ∈ ws, isIndent c = true) :
    Text.trim (stripLine s.carry (ws ++ code)).1 = code := by
  rw [hs, hc.stripLine_eq hw, hc.trim_append hw]

/-- A line that continues no statement is put at the level of its code. -/
theorem moved_of_not_continues (hs : s.carry = .code) (hc : IsBare code)
    (hw : ∀ c ∈ ws, isIndent c = true) (hcontinues : s.continues code = false) :
    s.moved unit (ws ++ code) = Row.text unit ⟨s.levelOf code, code⟩ := by
  have hdrop : (ws ++ code).dropWhile isIndent = code := by
    rw [Document.dropWhile_isIndent_append hw, hc.dropWhile_eq]
  rw [State.moved, State.newIndent, placeLine_of_not_fixed (fixed_of_isBare hs hc hw),
    trim_stripLine_of_isBare hs hc hw, hcontinues, if_neg Bool.false_ne_true, hdrop]
  rfl

theorem next_of_isBare (hs : s.carry = .code) (hc : IsBare code)
    (hw : ∀ c ∈ ws, isIndent c = true) :
    s.next u (ws ++ code) =
      { depth := s.nextDepth code
        parens := s.nextParens code
        shift := s.nextShift u code (ws ++ code)
        carry := .code
        labels := s.nextLabels code (ws ++ code)
        previous := code } := by
  have hstrip : stripLine s.carry (ws ++ code) = (ws ++ code, .code) := by
    rw [hs, hc.stripLine_eq hw]
  unfold State.next
  rw [hstrip]
  dsimp only
  rw [hc.trim_append hw]
  simp [hc.ne_nil]

/-- A blank line tells the lines below it nothing. -/
theorem next_of_blank (hs : s.carry = .code) (hb : isBlankLine line = true) :
    s.next u line = { s with labels := s.labels.dropWhile (s.depth < ·) } := by
  have hblank : ∀ c ∈ line, Text.isBlank c = true := by simpa [isBlankLine] using hb
  have htrim : Text.trim line = [] := Text.trim_eq_nil_iff.mpr hblank
  have hnot : ∀ c, Text.isBlank c = false → c ∉ line := by
    intro c hc hm
    rw [hblank c hm] at hc
    exact Bool.false_ne_true hc.symm
  have hslash : CodePoint.char '/' ∉ line := hnot _ (by decide)
  have hstrip : stripLine s.carry line = (line, .code) := by
    rw [hs, stripLine, scan_of_bare ⟨hnot _ (by decide), hnot _ (by decide)⟩
      ⟨not_occursIn_of_not_mem hslash, not_occursIn_of_not_mem hslash⟩]
  have hfixed : s.fixed line = true := fixed_of_stays (Or.inr (Or.inl hb))
  unfold State.next
  rw [hstrip]
  dsimp only
  rw [htrim]
  simp [State.nextDepth, State.nextParens, State.nextLabels, State.nextShift, State.place, hfixed,
    hs]

end State

/-- The state in front of a line inside of `level` blocks; where `fresh` is true, no statement is
left open. -/
structure State.Stands (level : Nat) (fresh : Bool) (s : State) : Prop where
  depth_eq : s.depth = level
  parens_eq : s.parens = 0
  carry_eq : s.carry = .code
  labels_eq : s.labels = []
  ends : fresh = true → endsStatement s.previous = true

namespace State.Stands

/-- A line that continues no statement is put at the level of its code. -/
theorem moved_eq (h : s.Stands level fresh) (hc : IsCode code)
    (hw : ∀ c ∈ ws, isIndent c = true)
    (hfirst : fresh = true ∨ opensBlock code = true ∨ closesBlock code = true) :
    s.moved unit (ws ++ code) =
      Row.text unit ⟨if closesBlock code then level - 1 else level, code⟩ := by
  have hcontinues : s.continues code = false := by
    rw [State.continues, h.parens_eq]
    rcases hfirst with hf | hf | hf
    · simp [h.ends hf]
    · simp [hf]
    · simp [hf]
  have hlevel : s.levelOf code = if closesBlock code then level - 1 else level := by
    rw [State.levelOf, h.depth_eq, h.labels_eq]
    simp
  rw [State.moved_of_not_continues h.carry_eq hc.isBare hw hcontinues, hlevel]

theorem next (h : s.Stands level fresh) (hc : IsCode code) (hl : isLabel code = false)
    (hw : ∀ c ∈ ws, isIndent c = true) {fresh' : Bool}
    (he : fresh' = true → endsStatement code = true) :
    (s.next u (ws ++ code)).Stands
      (level + code.count (.char '\x7b') - code.count (.char '\x7d')) fresh' := by
  have hparens : s.nextParens code = 0 := by
    rw [State.nextParens, h.parens_eq, Nat.zero_add, hc.brackets, Nat.sub_self]
  rw [State.next_of_isBare h.carry_eq hc.isBare hw]
  refine ⟨?_, hparens, rfl, ?_, he⟩
  · rw [State.nextDepth, h.depth_eq]
  · simp [State.nextLabels, hl, h.labels_eq]

theorem next_blank (h : s.Stands level fresh) (hb : isBlankLine line = true) :
    (s.next u line).Stands level fresh := by
  rw [State.next_of_blank h.carry_eq hb, h.labels_eq]
  exact ⟨h.depth_eq, h.parens_eq, h.carry_eq, rfl, h.ends⟩

end State.Stands

/-! ## All lines -/

theorem isCode_brace : IsCode ['\x7b'] ∧ IsCode ['\x7d'] := by decide

theorem getLast?_of_isLabel (h : isLabel code = true) : code.getLast? = some (.char ':') := by
  rw [isLabel, Bool.or_eq_true] at h
  rcases h with h | h
  · rw [Bool.and_eq_true] at h
    exact of_decide_eq_true h.1
  · split at h
    · rename_i t ht
      have hsuffix : [CodePoint.char ':'] <:+ t := by
        rw [← of_decide_eq_true h]
        exact List.dropWhile_suffix _
      obtain ⟨x, rfl⟩ := hsuffix
      rw [Text.after?_eq_some_iff.mp ht, ← List.append_assoc, List.getLast?_concat]
    · exact absurd h Bool.false_ne_true

theorem Statement.not_label (s : Statement) : isLabel s.code = false := by
  by_contra h
  have hlast := getLast?_of_isLabel (Bool.of_not_eq_false h)
  rcases s.ends with he | he
  all_goals
    rw [he] at hlast
    exact absurd hlast (by decide)

theorem Statement.endsStatement (s : Statement) : endsStatement s.code = true := by
  rcases s.ends with h | h <;> simp [Layout.endsStatement, h]

/-- What the state in front of a row has to be, and what it is behind it. -/
theorem Nested.step (h : Nested level fresh (r :: rows)) :
    IsCode r.code ∧ isLabel r.code = false ∧
      (fresh = true ∨ opensBlock r.code = true ∨ closesBlock r.code = true) ∧
      r.level = (if closesBlock r.code then level - 1 else level) ∧
      ∃ fresh', (fresh' = true → Layout.endsStatement r.code = true) ∧
        Nested (level + r.code.count (.char '\x7b') - r.code.count (.char '\x7d')) fresh' rows := by
  cases h with
  | statement first rest =>
    have hcloses : closesBlock first.code = false := by simpa [closesBlock] using first.starts.2
    refine ⟨first.isCode, first.not_label, Or.inl rfl, by simp [hcloses], true,
      fun _ => first.endsStatement, ?_⟩
    rwa [first.braces, Nat.add_sub_cancel]
  | header header rest =>
    have hcloses : closesBlock header.code = false := by
      refine decide_eq_false fun h => header.no_braces.2 (List.mem_of_head? h)
    refine ⟨header.isCode, header.not_label, Or.inl rfl, by simp [hcloses], false, by simp, ?_⟩
    rwa [List.count_eq_zero.mpr header.no_braces.1, List.count_eq_zero.mpr header.no_braces.2]
  | opening rest =>
    exact ⟨isCode_brace.1, rfl, Or.inr (Or.inl rfl), rfl, true, fun _ => rfl, rest⟩
  | closing rest =>
    exact ⟨isCode_brace.2, rfl, Or.inl rfl, rfl, true, fun _ => rfl, rest⟩

theorem indented_blank {l : Line} (hb : isBlankLine l.content = true) (ls : List Line) :
    indented unit rows (l :: ls) = l :: indented unit rows ls := by
  cases rows with
  | nil => rfl
  | cons r rows => rw [indented, if_pos hb]

theorem codeOf_blank (hb : isBlankLine line = true) (lines : List Text) :
    codeOf (line :: lines) = codeOf lines := by
  rw [codeOf, List.filter_cons_of_neg (by simpa using hb), codeOf]

theorem codeOf_cons (hb : isBlankLine line = false) (lines : List Text) :
    codeOf (line :: lines) = line.dropWhile isIndent :: codeOf lines := by
  rw [codeOf, List.filter_cons_of_pos (by simpa using hb), List.map_cons, codeOf]

/-- A pass puts rows at their levels where every step does so and leads to the rows that are
left. -/
theorem relaid_eq_indented_of_step (Inv : List Row → State → Prop)
    (hblank : ∀ {rows s line}, Inv rows s → isBlankLine line = true →
      Inv rows (s.next unit.length line))
    (hstep : ∀ {r rows s ws}, Inv (r :: rows) s → (∀ c ∈ ws, isIndent c = true) →
      s.moved unit (ws ++ r.code) = r.text unit ∧ Inv rows (s.next unit.length (ws ++ r.code)))
    {ls : List Line} (h : Inv rows s) (hl : codeOf (ls.map Line.content) = rows.map Row.code) :
    relaid unit s ls = indented unit rows ls := by
  induction ls generalizing s rows with
  | nil => cases rows <;> rfl
  | cons l ls ih =>
    rw [List.map_cons] at hl
    cases hb : isBlankLine l.content with
    | true =>
      rw [codeOf_blank hb] at hl
      have hstays : s.moved unit l.content = l.content :=
        moved_of_fixed (fixed_of_stays (Or.inr (Or.inl hb)))
      rw [relaid, hstays, ih (hblank h hb) hl, indented_blank hb]
    | false =>
      rw [codeOf_cons hb] at hl
      obtain ⟨r, rows, rfl, hr, hrows⟩ := List.map_eq_cons_iff.mp hl.symm
      have hw : ∀ c ∈ Document.indentOf l.content, isIndent c = true :=
        fun _ => Document.isIndent_of_mem_indentOf
      have hcut : l.content = Document.indentOf l.content ++ r.code := by
        rw [hr, Document.indentOf_append_dropWhile]
      obtain ⟨hmoved, hnext⟩ := hstep h hw
      rw [← hcut] at hmoved hnext
      rw [relaid, hmoved, ih hnext hrows.symm, indented, if_neg (by simp [hb])]

/-- A pass puts nested rows at their levels. -/
theorem relaid_eq_indented {ls : List Line} (hn : Nested level fresh rows)
    (hs : s.Stands level fresh) (hl : codeOf (ls.map Line.content) = rows.map Row.code) :
    relaid unit s ls = indented unit rows ls := by
  refine relaid_eq_indented_of_step
    (fun rows s => ∃ level fresh, Nested level fresh rows ∧ s.Stands level fresh)
    ?_ ?_ ⟨level, fresh, hn, hs⟩ hl
  · rintro rows s line ⟨level, fresh, hn, hs⟩ hb
    exact ⟨level, fresh, hn, hs.next_blank hb⟩
  · rintro r rows s ws ⟨level, fresh, hn, hs⟩ hw
    obtain ⟨hc, hlabel, hfirst, hlevel, fresh', he, hrest⟩ := hn.step
    refine ⟨?_, _, fresh', hrest, hs.next hc hlabel hw he⟩
    rw [hs.moved_eq hc hw hfirst, ← hlevel]

theorem isBlankLine_dropWhile (hb : isBlankLine line = false) :
    isBlankLine (line.dropWhile isIndent) = false := by
  have hindent : isBlankLine (Document.indentOf line) = true := List.all_eq_true.mpr fun c hc =>
    Document.isBlank_of_isIndent (Document.isIndent_of_mem_indentOf hc)
  rw [← Document.indentOf_append_dropWhile line, isBlankLine, List.all_append] at hb
  rw [isBlankLine] at hindent ⊢
  rwa [hindent, Bool.true_and] at hb

/-- Where the rows stand on the lines, the lines that are not blank are the rows at their levels. -/
theorem filter_indented {ls : List Line} (hl : codeOf (ls.map Line.content) = rows.map Row.code) :
    ((indented unit rows ls).map Line.content).filter (!isBlankLine ·) =
      rows.map (Row.text unit) := by
  induction ls generalizing rows with
  | nil =>
    obtain rfl : rows = [] := List.map_eq_nil_iff.mp hl.symm
    rfl
  | cons l ls ih =>
    rw [List.map_cons] at hl
    cases hb : isBlankLine l.content with
    | true =>
      rw [codeOf_blank hb] at hl
      rw [indented_blank hb, List.map_cons, List.filter_cons_of_neg (by simp [hb]), ih hl]
    | false =>
      rw [codeOf_cons hb] at hl
      obtain ⟨r, rows, rfl, hr, hrows⟩ := List.map_eq_cons_iff.mp hl.symm
      have htext : isBlankLine (r.text unit) = false := by
        have hcode : isBlankLine r.code = false := hr ▸ isBlankLine_dropWhile hb
        rw [isBlankLine] at hcode ⊢
        rw [Row.text, List.all_append, hcode, Bool.and_false]
      rw [indented, if_neg (by simp [hb]), List.map_cons,
        List.filter_cons_of_pos (by simp [htext]), ih hrows.symm, List.map_cons]

/-- For every forest that stands on the lines of a document, with blank lines anywhere and any
spaces and tabs in front: a pass succeeds, and afterwards each row has one unit of indentation for
every block around it. The blank lines and all line breaks stay as they are. -/
theorem format_indents_blocks (f : Forest) {d : Document} {tabSize : Int} (hk : 1 ≤ tabSize)
    (hf : codeOf d.lines = (f.rows 0).map Row.code) :
    ∃ edits t, format d tabSize = .ok edits ∧ d.applyEdits edits = .ok t ∧
      (Document.linesOf t).filter (!isBlankLine ·) =
        (f.rows 0).map (Row.text (d.indentUnit tabSize)) ∧
      Line.Reads t (indented (d.indentUnit tabSize) (f.rows 0) (Line.read d.text)) := by
  have hd := Line.reads_read d.text
  have hu : IsUnit _ (d.indentUnit tabSize) := isUnit_unitFor hk d.lines
  rw [Document.lines_eq hd] at hf
  have hstart : ({} : State).Stands 0 true := ⟨rfl, rfl, rfl, rfl, fun _ => rfl⟩
  have hrelaid : relaid (d.indentUnit tabSize) {} (Line.read d.text) =
      indented (d.indentUnit tabSize) (f.rows 0) (Line.read d.text) :=
    relaid_eq_indented (nested_rows f) hstart hf
  have hreads := reads_relaid hu {} hd
  obtain ⟨edits, hedits, happly, -⟩ := applyEdits_format hk hd
  rw [hrelaid] at hreads happly
  refine ⟨edits, _, hedits, happly, ?_, hreads⟩
  rw [hreads.linesOf_eq]
  exact filter_indented hf

/-- A statement in a block in a block, with line breaks of both kinds. -/
theorem format_indents_blocks_nested :
    ∃ (f : Forest) (d : Document),
      d.text = "class A\r\n\t\x7b\n  void F(int x)\n\n\x7b\r\n y = x;\n\t\x7d\n\x7d" ∧
      (f.rows 0).map Row.level = [0, 0, 1, 1, 2, 1, 0] ∧
      codeOf d.lines = (f.rows 0).map Row.code ∧
      ∃ edits t, format d 4 = .ok edits ∧ d.applyEdits edits = .ok t ∧
        (Document.linesOf t).filter (!isBlankLine ·) =
          (f.rows 0).map (Row.text (d.indentUnit 4)) ∧
        Line.Reads t (indented (d.indentUnit 4) (f.rows 0) (Line.read d.text)) := by
  refine ⟨.block ⟨"class A", by decide, by decide, by decide⟩
    (.block ⟨"void F(int x)", by decide, by decide, by decide⟩
      (.statement ⟨"y = x;", by decide, by decide, by decide, by decide⟩ .nil) .nil) .nil,
    ⟨"class A\r\n\t\x7b\n  void F(int x)\n\n\x7b\r\n y = x;\n\t\x7d\n\x7d", none⟩,
    rfl, rfl, ?shown, format_indents_blocks _ (by decide) ?shown⟩
  decide +kernel

end CSharpActions.Layout
