import CSharpActions.Proofs.Action.Constructor
import CSharpActions.Proofs.Codegen.Rows

/-!
# Constructors in a laid out document

Where the lines of a document stand at the depths of an outline, a constructor brings in settled
rows at the depth of the first property, and does not change the unit of indentation. So there is
nothing for the formatter to do.
-/
namespace CSharpActions

open Document (isIndent isBlankLine indentOf)
open Layout (Row LineKind Outline IsUnit IsBare Settled settled_append)
open Codegen (constructorRows)

theorem PropertyDecl.isBlankLine_of_find? {line : Text} {found : Found}
    (h : find? line = some found) : isBlankLine line = false :=
  Bool.eq_false_iff.mpr fun hb =>
    absurd (List.all_eq_true.mp hb _ (exists_of_find? h).2.1) (by decide)

/-- A row with a property is no closing brace. -/
theorem Layout.Row.code_ne_of_find? {r : Row} {unit : Text} {c : CodePoint} (hu : IsUnit c unit)
    {found : PropertyDecl.Found} (h : PropertyDecl.find? (r.text unit) = some found) :
    r.code ≠ [.char '\x7d'] := by
  intro hcode
  have hbrace := (PropertyDecl.exists_of_find? h).2.1
  rw [Row.text, hcode, List.mem_append] at hbrace
  rcases hbrace with hm | hm
  · exact absurd (Layout.isIndent_of_mem_level hu _ _ hm) (by decide)
  · exact absurd hm (by decide)

namespace Action

variable {host : Host} {a : Applied} {m : Memory} {t : Text}

/-- Nothing is committed after a batch whose result is laid out already. -/
theorem commit_of_formatted (he : a.edits ≠ []) (ha : a.document.applyEdits a.edits = .ok t)
    (hf : Layout.format (a.document.withText t) host.settings.tabSize = .ok []) :
    commit host (memorySink none) a m = ⟨.ok { a with document := a.document.withText t }, [],
      ⟨m.batches ++ [a.edits], some (a.document.withText t)⟩⟩ := by
  have hne : a.edits.isEmpty = false := by simpa using he
  unfold commit
  rw [hne, memorySink_apply ha]
  simp only [Bool.false_eq_true, if_false, hf]
  split <;> rfl

end Action

namespace ConstructorPlan.Offered

variable {d : Document} {s : Settings} {plan : ConstructorPlan}

theorem map_content_ofFragment (h : plan.Offered d s) {n : Nat}
    (hi : (d.styleAt s plan.insertionLine).memberIndent s =
      (List.replicate n (d.indentUnit s.tabSize)).flatten) :
    (Line.ofFragment plan.text).map Line.content =
      (constructorRows n plan.owner.modifier plan.owner.name
        (plan.properties.map (·.toField)) s).map (Row.text (d.indentUnit s.tabSize)) ++ [[]] := by
  rw [h.ofFragment_eq, List.map_map, ← Codegen.constructorLines_eq_rows hi rfl]
  exact List.map_id _

/-- The lines that a plan leaves stand on settled rows where those of the document do, and the first
property stands at the depth of one of them. -/
theorem exists_settled (h : plan.Offered d s) (hk : 1 ≤ s.tabSize)
    (f : Outline LineKind.Unlabelled)
    (hf : d.lines.filter (!isBlankLine ·) =
      (f.rows 0 false).map (Row.text (d.indentUnit s.tabSize))) :
    ∃ n rows, (d.styleAt s plan.insertionLine).memberIndent s =
        (List.replicate n (d.indentUnit s.tabSize)).flatten ∧ Settled 0 rows ∧
      (((Plan.constructor plan).linesAfter d).map Line.content).filter (!isBlankLine ·) =
        rows.map (Row.text (d.indentUnit s.tabSize)) ∧
      Document.unitFor (((Plan.constructor plan).linesAfter d).map Line.content) s.tabSize =
        d.indentUnit s.tabSize := by
  obtain ⟨pre, l, post, hread, -, hline, hfind, hafter⟩ := h.exists_linesAfter
  have hlines : d.lines = pre.map Line.content ++ l.content :: post.map Line.content := by
    rw [Document.lines_eq (Line.reads_read d.text), hread, List.map_append, List.map_cons]
  have hunit : IsUnit _ (d.indentUnit s.tabSize) := Layout.isUnit_unitFor hk d.lines
  -- the row of the first property, and the depth there
  obtain ⟨found, hfound⟩ := Option.isSome_iff_exists.mp hfind
  have hblank := PropertyDecl.isBlankLine_of_find? hfound
  rw [hlines] at hf
  obtain ⟨above, r, below, hrows, hr, habove, hbelow⟩ := Layout.exists_row hblank hf
  have hcode := Row.code_ne_of_find? hunit (hr ▸ hfound)
  obtain ⟨hsettledAbove, hsettledBelow, hlevel⟩ := Layout.level_eq_depthBelow f hrows hcode
  -- the rows of the constructor at that depth
  have hindent : (d.styleAt s plan.insertionLine).memberIndent s =
      (List.replicate (Layout.depthBelow 0 above) (d.indentUnit s.tabSize)).flatten := by
    have hstyle : (d.styleAt s plan.insertionLine).memberIndent s =
        indentOf (d.lines.getD plan.insertionLine []) := rfl
    rw [hstyle, hline, hr, Layout.indentOf_text hunit hsettledBelow.1.bare, hlevel]
  have hnew := h.map_content_ofFragment hindent
  have hbare : ∀ k ∈ constructorRows (Layout.depthBelow 0 above) plan.owner.modifier
      plan.owner.name (plan.properties.map (·.toField)) s, IsBare k.code :=
    fun _ hk => h.declared.isBare_of_mem_constructorRows hk
  have hsettled := h.declared.settled_constructorRows (s := s) hsettledBelow
  generalize constructorRows (Layout.depthBelow 0 above) plan.owner.modifier plan.owner.name
    (plan.properties.map (·.toField)) s = new at hnew hbare hsettled
  refine ⟨_, above ++ (new ++ r :: below), hindent,
    settled_append.mpr ⟨hsettledAbove, hsettled⟩, ?_, ?_⟩
  · have hempty : List.filter (!isBlankLine ·) [([] : Text)] = [] := rfl
    rw [hafter, List.map_append, List.map_append, hnew, List.map_cons, List.filter_append,
      List.filter_append, List.filter_append, Layout.filter_map_text hbare, hempty,
      List.filter_cons_of_pos (by simp [hblank]), habove, hr, hbelow]
    simp
  · rw [hafter, List.map_append, List.map_append, hnew, List.map_cons]
    exact Layout.unitFor_insert_rows hk hbare (by rw [← hlines]; rfl)

end ConstructorPlan.Offered

namespace Action

/-- Where the lines of a document that are not blank stand at the depths of an outline without
labels, in the document's own unit, an offered constructor consists of its rows at the depth of the
first property and of a blank line. It is brought in as it is, and a pass over the result has no
edits. -/
theorem execute_constructor_leaves_formatted (f : Outline LineKind.Unlabelled) (d : Document)
    (p : Position) (s : Settings) (host : Host) (a : Action) (hk : 1 ≤ s.tabSize)
    (hhost : host.settings.tabSize = s.tabSize)
    (hf : d.lines.filter (!isBlankLine ·) =
      (f.rows 0 false).map (Row.text (d.indentUnit s.tabSize)))
    (h : d.constructorAction p s = some a) :
    ∃ plan n, a.plan = .constructor plan ∧
      indentOf (d.lines.getD plan.insertionLine []) =
        (List.replicate n (d.indentUnit s.tabSize)).flatten ∧
      (Line.ofFragment plan.text).map Line.content =
        (constructorRows n plan.owner.modifier plan.owner.name (plan.properties.map (·.toField))
          s).map (Row.text (d.indentUnit s.tabSize)) ++ [[]] ∧
      ∃ applied, (a.execute host (memorySink none) {}).result = .ok applied ∧
        (a.execute host (memorySink none) {}).sink.textAfter d.text = applied.document.text ∧
        Line.read applied.document.text = a.plan.linesAfter d ∧
        Layout.format applied.document s.tabSize = .ok [] := by
  obtain ⟨plan, rfl, hoffered⟩ := Document.offered_of_constructorAction h
  obtain ⟨n, rows, hindent, hsettled, hlines, hunit⟩ := hoffered.exists_settled hk f hf
  refine ⟨plan, n, rfl, hindent, hoffered.map_content_ofFragment hindent, ?_⟩
  have hfits : (Plan.constructor plan).Fits d := hoffered.fits
  obtain ⟨t, ht, hreads⟩ := Plan.applyEdits_edits hfits
  have hafter : (d.withText t).lines =
      ((Plan.constructor plan).linesAfter d).map Line.content := Document.lines_eq hreads
  have hformat : Layout.format (d.withText t) s.tabSize = .ok [] := by
    refine Layout.format_of_settled hk hsettled ?_
    rw [Document.indentUnit, hafter, hunit, hlines]
  obtain ⟨hresult, hsink⟩ := execute_eq host (a := ⟨constructorTitle, constructorCommand,
    .constructor plan, d⟩) rfl (memorySink none) {}
  rw [← hhost] at hformat
  have hcommit := commit_of_formatted (m := {}) (a := proposed
    ⟨constructorTitle, constructorCommand, .constructor plan, d⟩) (List.cons_ne_nil _ _) ht hformat
  rw [hcommit] at hresult hsink
  rw [hhost] at hformat
  refine ⟨_, hresult, ?_, hreads.read_eq, hformat⟩
  rw [hsink]
  rfl

/-- Two properties of a class in a namespace, which is indented by tabs. -/
theorem execute_constructor_leaves_formatted_in_namespace :
    ∃ (f : Outline LineKind.Unlabelled) (d : Document) (a : Action),
      d.text = "namespace N\n\x7b\n\tpublic class A\n\t\x7b\n\n\t\tpublic int X \x7b get; \x7d\r\n\t\tpublic T[] Y \x7b get; set; \x7d\n\t\x7d\n\x7d" ∧
      (1 : Int) ≤ ({} : Settings).tabSize ∧
      ({} : Host).settings.tabSize = ({} : Settings).tabSize ∧
      d.lines.filter (!isBlankLine ·) =
        (f.rows 0 false).map (Row.text (d.indentUnit ({} : Settings).tabSize)) ∧
      d.constructorAction ⟨6, 3⟩ {} = some a ∧
      ∃ plan n, a.plan = .constructor plan ∧
        indentOf (d.lines.getD plan.insertionLine []) =
          (List.replicate n (d.indentUnit ({} : Settings).tabSize)).flatten ∧
        (Line.ofFragment plan.text).map Line.content =
          (constructorRows n plan.owner.modifier plan.owner.name (plan.properties.map (·.toField))
            {}).map (Row.text (d.indentUnit ({} : Settings).tabSize)) ++ [[]] ∧
        ∃ applied, (a.execute {} (memorySink none) {}).result = .ok applied ∧
          (a.execute {} (memorySink none) {}).sink.textAfter d.text = applied.document.text ∧
          Line.read applied.document.text = a.plan.linesAfter d ∧
          Layout.format applied.document ({} : Settings).tabSize = .ok [] := by
  let f : Outline LineKind.Unlabelled := .block (some ⟨"namespace N", by decide⟩)
    (.block (some ⟨"public class A", by decide⟩)
      (.statement "public int X \x7b get; \x7d" (by decide)
        (.statement "public T[] Y \x7b get; set; \x7d" (by decide) .nil)) .nil) .nil
  let d : Document := ⟨"namespace N\n\x7b\n\tpublic class A\n\t\x7b\n\n\t\tpublic int X \x7b get; \x7d\r\n\t\tpublic T[] Y \x7b get; set; \x7d\n\t\x7d\n\x7d", none⟩
  have hf : d.lines.filter (!isBlankLine ·) =
      (f.rows 0 false).map (Row.text (d.indentUnit ({} : Settings).tabSize)) := by
    decide +kernel
  have hsome : (d.constructorAction ⟨6, 3⟩ {}).isSome = true := by decide +kernel
  obtain ⟨a, ha⟩ := Option.isSome_iff_exists.mp hsome
  exact ⟨f, d, a, rfl, by decide, rfl, hf, ha,
    execute_constructor_leaves_formatted f d ⟨6, 3⟩ {} {} a (by decide) rfl hf ha⟩

end Action

end CSharpActions
