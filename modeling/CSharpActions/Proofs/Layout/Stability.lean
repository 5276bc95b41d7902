import CSharpActions.Proofs.Layout.Pass

/-!
# Repeated passes

The code of a line, and with it all that the lines below are told except the shift, does not
depend on the indentation. A second pass with the same unit therefore changes nothing. The lines
that stay as they are settle which unit the lines vote for once the others follow, so that the
vote changes at most once.
-/
namespace CSharpActions.Layout

open Document (isIndent indentOf)

theorem scan_cons_of_isIndent {c : CodePoint} (h : isIndent c = true) (r : Text) :
    scan (.carried .code) (c :: r) = emit [c] (scan (.carried .code) r) := by
  rcases Document.isIndent_iff.mp h with rfl | rfl <;> simp [scan]

theorem scan_append_of_isIndent {ws : Text} (h : ∀ c ∈ ws, isIndent c = true) (r : Text) :
    scan (.carried .code) (ws ++ r) = emit ws (scan (.carried .code) r) := by
  induction ws with
  | nil => rfl
  | cons c ws ih =>
    rw [List.cons_append, scan_cons_of_isIndent (h c List.mem_cons_self),
      ih fun x hx => h x (List.mem_cons_of_mem c hx)]
    rfl

theorem trim_dropWhile_isIndent (line : Text) :
    Text.trim (line.dropWhile isIndent) = Text.trim line := by
  conv_rhs => rw [← Document.indentOf_append_dropWhile line]
  refine (Text.trim_blank_append fun c hc => ?_).symm
  exact Document.isBlank_of_isIndent (Document.isIndent_of_mem_indentOf hc)

/-- The code of a line and what it leads into are those of the line without its indentation. -/
theorem stripLine_dropWhile_isIndent (line : Text) :
    Text.trim (stripLine .code line).1 =
      Text.trim (stripLine .code (line.dropWhile isIndent)).1 ∧
    (stripLine .code line).2 = (stripLine .code (line.dropWhile isIndent)).2 := by
  have hi : ∀ c ∈ indentOf line, isIndent c = true :=
    fun _ => Document.isIndent_of_mem_indentOf
  have hs : stripLine .code line =
      emit (indentOf line) (stripLine .code (line.dropWhile isIndent)) := by
    conv_lhs => rw [← Document.indentOf_append_dropWhile line]
    exact scan_append_of_isIndent hi _
  rw [hs]
  refine ⟨?_, rfl⟩
  exact Text.trim_blank_append fun c hc => Document.isBlank_of_isIndent (hi c hc)

/-- The second line differs from the first in its indentation alone, and not even in that if it
begins inside of a comment or a literal. -/
def Restyled (carry : Carry) (line line' : Text) : Prop :=
  line'.dropWhile isIndent = line.dropWhile isIndent ∧ (carry ≠ .code → line' = line)

namespace Restyled

variable {carry : Carry} {line line' : Text}

theorem code_eq (h : Restyled carry line line') :
    Text.trim (stripLine carry line').1 = Text.trim (stripLine carry line).1 := by
  by_cases hc : carry = .code
  · subst hc
    rw [(stripLine_dropWhile_isIndent line').1, h.1, ← (stripLine_dropWhile_isIndent line).1]
  · rw [h.2 hc]

theorem carry_eq (h : Restyled carry line line') :
    (stripLine carry line').2 = (stripLine carry line).2 := by
  by_cases hc : carry = .code
  · subst hc
    rw [(stripLine_dropWhile_isIndent line').2, h.1, ← (stripLine_dropWhile_isIndent line).2]
  · rw [h.2 hc]

theorem fixed_eq {s : State} (h : Restyled s.carry line line') : s.fixed line' = s.fixed line := by
  have ht : Text.trim line' = Text.trim line := by
    rw [← trim_dropWhile_isIndent, h.1, trim_dropWhile_isIndent]
  rw [State.fixed, ht, State.fixed]

end Restyled

/-- The states agree on all but the shift. -/
def State.Agrees (s s' : State) : Prop := s' = { s with shift := s'.shift }

theorem State.Agrees.next {s s' : State} (h : s.Agrees s') {line line' : Text}
    (hl : Restyled s.carry line line') (u u' : Nat) :
    (s.next u line).Agrees (s'.next u' line') := by
  obtain ⟨x, rfl⟩ : ∃ x, s' = { s with shift := x } := ⟨_, h⟩
  have hf : ({ s with shift := x } : State).fixed line' = s.fixed line := hl.fixed_eq
  simp only [State.Agrees, State.next, hl.code_eq, hl.carry_eq, State.nextLabels, hf,
    State.nextDepth, State.nextParens]
  rfl

variable {unit : Text} {c : CodePoint}

theorem restyled_moved (hu : IsUnit c unit) (s : State) (line : Text) :
    Restyled s.carry line (s.moved unit line) := by
  refine ⟨dropWhile_moved hu s line, ?_⟩
  intro hc
  exact moved_of_fixed (by simp [State.fixed, hc])

theorem State.placeLine_of_not_fixed {s : State} {line : Text} (h : s.fixed line = false) :
    s.placeLine line =
      if s.continues (Text.trim (stripLine s.carry line).1) then
        .column ((indentOf line).length + s.shift).toNat
      else .level (s.levelOf (Text.trim (stripLine s.carry line).1)) := by
  rw [State.placeLine, State.place, h, if_neg Bool.false_ne_true]

theorem length_spread_level (unit line : Text) (n : Nat) :
    ((Placement.level n).spread unit line).length = n * unit.length := by
  simp [Placement.spread]

/-- Where the lines above have not moved, a line that was laid out is in its place, and the lines
below are told that nothing has moved. -/
theorem moved_moved (hu : IsUnit c unit) (s : State) (line : Text) :
    ({ s with shift := 0 } : State).moved unit (s.moved unit line) = s.moved unit line ∧
      (({ s with shift := 0 } : State).next unit.length (s.moved unit line)).shift = 0 := by
  have hr := restyled_moved hu s line
  have hi := indentOf_moved hu s line
  have hf : ({ s with shift := 0 } : State).fixed (s.moved unit line) = s.fixed line := hr.fixed_eq
  rw [moved_eq_iff, hi]
  simp only [State.newIndent, State.next, State.nextShift]
  rw [← State.placeLine]
  cases h : s.fixed line with
  | true =>
    rw [h] at hf
    rw [placeLine_of_fixed hf, Placement.spread, hi]
    exact ⟨rfl, rfl⟩
  | false =>
    rw [h] at hf
    rw [State.placeLine_of_not_fixed hf, State.placeLine_of_not_fixed h, hr.code_eq, hi,
      State.newIndent, State.placeLine_of_not_fixed h]
    by_cases hc : s.continues (Text.trim (stripLine s.carry line).1)
    · -- the line keeps its distance from one that has not moved
      have hc' : ({ s with shift := 0 } : State).continues
          (Text.trim (stripLine s.carry line).1) = true := hc
      simp only [hc, hc', if_true, Placement.spread, Text.copies, List.length_replicate,
        Int.add_zero, Int.toNat_natCast, and_self]
    · have hc' : ¬({ s with shift := 0 } : State).continues
          (Text.trim (stripLine s.carry line).1) = true := hc
      rw [if_neg hc, if_neg hc']
      refine ⟨rfl, ?_⟩
      rw [length_spread_level]
      dsimp only
      split
      · rfl
      · exact Int.sub_self _

/-- A second pass with the same unit leaves every line in its place. -/
theorem relaid_relaid (hu : IsUnit c unit) (s : State) (ls : List Line) :
    relaid unit { s with shift := 0 } (relaid unit s ls) = relaid unit s ls := by
  induction ls generalizing s with
  | nil => rfl
  | cons l ls ih =>
    obtain ⟨hm, hs⟩ := moved_moved hu s l.content
    have hn : ({ s with shift := 0 } : State).next unit.length (s.moved unit l.content) =
        { s.next unit.length l.content with shift := 0 } := by
      have ha : s.Agrees { s with shift := 0 } := rfl
      have := ha.next (restyled_moved hu s l.content) unit.length unit.length
      rw [State.Agrees, hs] at this
      exact this
    rw [relaid, relaid, hm, hn, ih]

/-- How many lines begin with a character. -/
def starting (x : CodePoint) (lines : List Text) : Nat := lines.countP fun l => l.head? = some x

theorem prefersTabs_iff (lines : List Text) : Document.prefersTabs lines = true ↔
    starting (.char ' ') lines < starting (.char '\t') lines := by
  rw [Document.prefersTabs, decide_eq_true_iff]
  rfl

/-- The lines that stay as they are. -/
def kept (u : Nat) : State → List Line → List Text
  | _, [] => []
  | s, l :: r =>
    (if s.fixed l.content then [l.content] else []) ++ kept u (s.next u l.content) r

theorem kept_relaid (hu : IsUnit c unit) {s s' : State} (h : s.Agrees s') (u : Nat)
    (ls : List Line) : kept u s' (relaid unit s ls) = kept unit.length s ls := by
  induction ls generalizing s s' with
  | nil => rfl
  | cons l ls ih =>
    have hr := restyled_moved hu s l.content
    have hf : s'.fixed (s.moved unit l.content) = s.fixed l.content := by
      rw [h]
      exact hr.fixed_eq
    simp only [relaid, kept, hf, ih (h.next hr unit.length u)]
    cases hs : s.fixed l.content with
    | true => simp [moved_of_fixed hs]
    | false => simp

/-- A line that was moved begins with the unit's character, if with a space or a tab at all. -/
theorem head?_moved (hu : IsUnit c unit) {s : State} {line : Text} (h : s.fixed line = false)
    {x : CodePoint} (hx : isIndent x = true) (hl : (s.moved unit line).head? = some x) :
    x = c := by
  obtain ⟨n, hn⟩ := newIndent_of_not_fixed hu h
  rw [State.moved, hn] at hl
  cases n with
  | zero =>
    have hno : isIndent x = false :=
      Text.false_of_head?_dropWhile (t := line) (by simpa [Text.copies] using hl)
    simp [hno] at hx
  | succ n =>
    simpa [Text.copies, List.replicate_succ, eq_comm] using hl

theorem starting_relaid_of_ne (hu : IsUnit c unit) {x : CodePoint} (hx : isIndent x = true)
    (hc : x ≠ c) (s : State) (ls : List Line) :
    starting x ((relaid unit s ls).map Line.content) = starting x (kept unit.length s ls) := by
  induction ls generalizing s with
  | nil => rfl
  | cons l ls ih =>
    have ih := ih (s.next unit.length l.content)
    simp only [starting] at ih ⊢
    rw [relaid, kept, List.map_cons, List.countP_cons, List.countP_append, ih]
    cases hs : s.fixed l.content with
    | true => simp [moved_of_fixed hs, List.countP_cons, Nat.add_comm]
    | false =>
      have : (s.moved unit l.content).head? ≠ some x := fun hl => hc (head?_moved hu hs hx hl)
      simp [this]

theorem starting_kept_le (unit : Text) (x : CodePoint) (s : State) (ls : List Line) :
    starting x (kept unit.length s ls) ≤ starting x ((relaid unit s ls).map Line.content) := by
  induction ls generalizing s with
  | nil => exact Nat.le_refl _
  | cons l ls ih =>
    have ih := ih (s.next unit.length l.content)
    simp only [starting] at ih ⊢
    rw [relaid, kept, List.map_cons, List.countP_cons, List.countP_append]
    cases hs : s.fixed l.content with
    | true =>
      simp only [moved_of_fixed hs, if_true, List.countP_cons, List.countP_nil]
      omega
    | false =>
      simp only [Bool.false_eq_true, if_false, List.countP_nil]
      omega

/-- Tabs on all moved lines keep the vote for tabs. -/
theorem prefersTabs_relaid (hu : IsUnit (.char '\t') unit) {s : State} {ls : List Line}
    (h : Document.prefersTabs (kept unit.length s ls) = true) :
    Document.prefersTabs ((relaid unit s ls).map Line.content) = true := by
  rw [prefersTabs_iff] at h ⊢
  have h₁ := starting_relaid_of_ne hu (x := .char ' ') (by decide) (by decide) s ls
  have h₂ := starting_kept_le unit (.char '\t') s ls
  omega

/-- Spaces on all moved lines bring no vote for tabs. -/
theorem prefersTabs_of_relaid (hu : IsUnit (.char ' ') unit) {s : State} {ls : List Line}
    (h : Document.prefersTabs ((relaid unit s ls).map Line.content) = true) :
    Document.prefersTabs (kept unit.length s ls) = true := by
  rw [prefersTabs_iff] at h ⊢
  have h₁ := starting_relaid_of_ne hu (x := .char '\t') (by decide) (by decide) s ls
  have h₂ := starting_kept_le unit (.char ' ') s ls
  omega

/-- The lines after a pass. -/
def laidOut (tabSize : Int) (ls : List Line) : List Line :=
  relaid (Document.unitFor (ls.map Line.content) tabSize) {} ls

def tabbed (ls : List Line) : Bool := Document.prefersTabs (ls.map Line.content)

theorem unitFor_eq {ls ms : List Line} (h : tabbed ls = tabbed ms) (tabSize : Int) :
    Document.unitFor (ls.map Line.content) tabSize =
      Document.unitFor (ms.map Line.content) tabSize := by
  unfold tabbed at h
  rw [Document.unitFor, h, Document.unitFor]

theorem isUnit_of_tabbed {tabSize : Int} (h : 1 ≤ tabSize) {ls : List Line} {b : Bool}
    (hb : tabbed ls = b) :
    IsUnit (if b then .char '\t' else .char ' ')
      (Document.unitFor (ls.map Line.content) tabSize) := by
  rw [← hb]
  exact isUnit_unitFor h _

variable {tabSize : Int} {ls : List Line}

theorem laidOut_laidOut (h : 1 ≤ tabSize)
    (hu : Document.unitFor ((laidOut tabSize ls).map Line.content) tabSize =
      Document.unitFor (ls.map Line.content) tabSize) :
    laidOut tabSize (laidOut tabSize ls) = laidOut tabSize ls := by
  rw [laidOut, hu]
  exact relaid_relaid (isUnit_unitFor h _) {} ls

/-- If the vote changes after one pass, it does not change again after the next. -/
theorem tabbed_laidOut_laidOut (h : 1 ≤ tabSize) (hne : tabbed (laidOut tabSize ls) ≠ tabbed ls) :
    tabbed (laidOut tabSize (laidOut tabSize ls)) = tabbed (laidOut tabSize ls) := by
  have ha : ({} : State).Agrees {} := rfl
  have hk : kept (Document.unitFor ((laidOut tabSize ls).map Line.content) tabSize).length {}
      (laidOut tabSize ls) = kept (Document.unitFor (ls.map Line.content) tabSize).length {} ls :=
    kept_relaid (isUnit_unitFor h _) ha _ ls
  cases hv : tabbed (laidOut tabSize ls) with
  | true =>
    -- spaces were written, so that it is the lines that stay that vote for tabs
    have hv₀ : tabbed ls = false := by simpa [hv] using hne
    apply prefersTabs_relaid (isUnit_of_tabbed h hv)
    rw [hk]
    exact prefersTabs_of_relaid (isUnit_of_tabbed h hv₀) hv
  | false =>
    have hv₀ : tabbed ls = true := by simpa [hv] using hne
    by_contra hn
    have ht : tabbed (laidOut tabSize (laidOut tabSize ls)) = true := by simpa using hn
    have hkept := prefersTabs_of_relaid (isUnit_of_tabbed h hv) ht
    rw [hk] at hkept
    have := prefersTabs_relaid (isUnit_of_tabbed h hv₀) hkept
    exact Bool.false_ne_true (hv.symm.trans this)

theorem laidOut_laidOut_laidOut (h : 1 ≤ tabSize) (ls : List Line) :
    laidOut tabSize (laidOut tabSize (laidOut tabSize ls)) =
      laidOut tabSize (laidOut tabSize ls) := by
  by_cases hv : tabbed (laidOut tabSize ls) = tabbed ls
  · have hs := laidOut_laidOut h (unitFor_eq hv tabSize)
    rw [hs, hs]
  · exact laidOut_laidOut h (unitFor_eq (tabbed_laidOut_laidOut h hv) tabSize)

/-- A pass turns one document into the next by its edits. -/
structure Pass (tabSize : Int) (d : Document) (edits : List Edit) (d' : Document) : Prop where
  format_eq : format d tabSize = .ok edits
  applyEdits_eq : d.applyEdits edits = .ok d'.text
  path_eq : d'.path = d.path

theorem indentUnit_eq {d : Document} (hr : Line.Reads d.text ls) (tabSize : Int) :
    d.indentUnit tabSize = Document.unitFor (ls.map Line.content) tabSize := by
  rw [Document.indentUnit, Document.lines_eq hr]

/-- There is a pass over every document, and it lays out its lines. -/
theorem exists_pass (h : 1 ≤ tabSize) {d : Document} (hr : Line.Reads d.text ls) :
    ∃ edits d', Pass tabSize d edits d' ∧ Line.Reads d'.text (laidOut tabSize ls) ∧
      (edits = [] ↔ laidOut tabSize ls = ls) := by
  obtain ⟨edits, hf, ha, he⟩ := applyEdits_format h hr
  rw [indentUnit_eq hr] at ha he
  refine ⟨edits, d.withText (Line.join (laidOut tabSize ls)), ⟨hf, ha, rfl⟩, ?_, he⟩
  exact reads_relaid (isUnit_unitFor h _) {} hr

/-- A pass without edits leads back to the same document. -/
theorem Pass.eq_of_nil {d d' : Document} (p : Pass tabSize d [] d') : d' = d := by
  have ht : d.text = d'.text := Except.ok.inj (d.applyEdits_nil.symm.trans p.applyEdits_eq)
  obtain ⟨t, path⟩ := d
  obtain ⟨t', path'⟩ := d'
  have hp : path' = path := p.path_eq
  simp_all

/-- A second pass has edits only if the unit of indentation has changed, and a third one has
none. -/
theorem third_pass_has_no_edits (d : Document) (tabSize : Int) (h : 1 ≤ tabSize) :
    ∃ edits₁ d₁ edits₂ d₂, Pass tabSize d edits₁ d₁ ∧ Pass tabSize d₁ edits₂ d₂ ∧
      (edits₂ ≠ [] → d₁.indentUnit tabSize ≠ d.indentUnit tabSize) ∧ Pass tabSize d₂ [] d₂ := by
  have r₀ := Line.reads_read d.text
  obtain ⟨edits₁, d₁, p₁, r₁, -⟩ := exists_pass h r₀
  obtain ⟨edits₂, d₂, p₂, r₂, e₂⟩ := exists_pass h r₁
  obtain ⟨edits₃, d₃, p₃, -, e₃⟩ := exists_pass h r₂
  refine ⟨edits₁, d₁, edits₂, d₂, p₁, p₂, ?_, ?_⟩
  · intro hne he
    rw [indentUnit_eq r₀, indentUnit_eq r₁] at he
    exact hne (e₂.mpr (laidOut_laidOut h he))
  · obtain rfl := e₃.mpr (laidOut_laidOut_laidOut h _)
    rw [p₃.eq_of_nil] at p₃
    exact p₃

/-- The first pass leaves more lines with a tab than with a space, and the second one follows. -/
theorem third_pass_has_no_edits_after_change_of_unit :
    (1 : Int) ≤ 1 ∧
      format { text := "\t#a\n\t#b\n \x7b\n x;\n\x7d" } 1 = .ok [⟨⟨⟨2, 0⟩, ⟨2, 1⟩⟩, []⟩] ∧
      format { text := "\t#a\n\t#b\n\x7b\n x;\n\x7d" } 1 =
        .ok [⟨⟨⟨3, 0⟩, ⟨3, 1⟩⟩, [.char '\t']⟩] ∧
      ∃ edits₁ d₁ edits₂ d₂, Pass 1 { text := "\t#a\n\t#b\n \x7b\n x;\n\x7d" } edits₁ d₁ ∧
        Pass 1 d₁ edits₂ d₂ ∧
        (edits₂ ≠ [] → d₁.indentUnit 1 ≠
          ({ text := "\t#a\n\t#b\n \x7b\n x;\n\x7d" } : Document).indentUnit 1) ∧
        Pass 1 d₂ [] d₂ := by
  refine ⟨by decide, by decide, by decide, ?_⟩
  exact third_pass_has_no_edits _ 1 (by decide)

end CSharpActions.Layout
