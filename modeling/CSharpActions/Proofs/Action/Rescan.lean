import CSharpActions.Proofs.Action.Constructor
import CSharpActions.Proofs.Codegen.Undetected

/-!
# Properties after a constructor was brought in

The lines of a constructor declare nothing, so the class has the same properties as before, below
the constructor.
-/
namespace CSharpActions

/-- A fragment has a last line without anything besides its own. -/
theorem Line.IsFragment.linesOf_eq {t : Text} (h : Line.IsFragment t) :
    Document.linesOf t = (Line.ofFragment t).map Line.content ++ [[]] := by
  have hr : Line.Reads (Line.join (Line.ofFragment t) ++ []) (Line.ofFragment t ++ [⟨[], []⟩]) :=
    Line.Reads.append h.inner (Line.Reads.last (l := ⟨[], []⟩) ⟨by simp, Or.inr ⟨rfl, by simp⟩⟩)
  rw [List.append_nil, h.join_eq] at hr
  rw [hr.linesOf_eq, List.map_append]
  rfl

namespace ConstructorPlan.Offered

variable {d : Document} {s : Settings} {plan : ConstructorPlan}

theorem undetected (h : plan.Offered d s) : ∀ l ∈ Document.linesOf plan.text, Undetected l := by
  have hall := h.declared.undetected (Document.isProper_styleAt d s plan.insertionLine)
  intro l hl
  rw [h.fits.text.linesOf_eq, h.ofFragment_eq, List.map_map, List.mem_append, List.mem_map] at hl
  rcases hl with ⟨k, hk, rfl⟩ | hl
  · exact hall k hk
  · -- the last line is as empty as the last one of a constructor
    refine hall l ?_
    rw [List.mem_singleton.mp hl, Codegen.constructorLines_eq]
    simp

/-- Above the line of the first property there is none of the class. -/
theorem insertionLine_le (h : plan.Offered d s) {q : PropertyDecl} (hq : q ∈ plan.properties) :
    plan.insertionLine ≤ q.lineNumber := by
  obtain ⟨first, rest, hprops, hfirst⟩ := h.exists_first
  have hpairwise := h.pairwise_properties
  rw [hprops] at hpairwise hq
  rcases List.mem_cons.mp hq with rfl | hq
  · exact hfirst.ge
  · exact hfirst ▸ (List.rel_of_pairwise_cons hpairwise hq).le

/-- Lines that are those of the plan but for their indentation have the properties of the class, as
many lines further down as the constructor has. -/
theorem forall₂_propertiesFrom (h : plan.Offered d s) {ms : List Line}
    (hu : ms.map Line.unindented = ((Plan.constructor plan).linesAfter d).map Line.unindented) :
    List.Forall₂ (PropertyDecl.Moves (plan.properties.length + 4)) plan.properties
      (Document.propertiesFrom plan.owner.name none 0 (ms.map Line.content)) := by
  obtain ⟨pre, l, post, hread, hlen, -, -, hafter⟩ := h.exists_linesAfter
  have hstripped : (ms.map Line.content).map (·.dropWhile Document.isIndent) =
      (((Plan.constructor plan).linesAfter d).map Line.content).map
        (·.dropWhile Document.isIndent) := by
    have hcontent := congrArg (List.map Line.content) hu
    rwa [List.map_map, List.map_map] at hcontent ⊢
  have hlines : d.lines = pre.map Line.content ++ (l :: post).map Line.content := by
    rw [Document.lines_eq (Line.reads_read d.text), hread, List.map_append]
  have hnew : ∀ k ∈ (Line.ofFragment plan.text).map Line.content, Undetected k := by
    intro k hk
    refine h.undetected k ?_
    rw [h.fits.text.linesOf_eq]
    exact List.mem_append_left _ hk
  have hprops : Document.propertiesFrom plan.owner.name none 0
      (pre.map Line.content ++ (l :: post).map Line.content) = plan.properties := by
    rw [← hlines, h.properties_eq, Document.propertiesOf]
  have hbelow : ∀ q ∈ Document.propertiesFrom plan.owner.name none 0
      (pre.map Line.content ++ (l :: post).map Line.content),
      (pre.map Line.content).length ≤ q.lineNumber := by
    rw [hprops, List.length_map, hlen]
    exact fun q hq => h.insertionLine_le hq
  have hmoves := Document.forall₂_propertiesFrom_insert hnew hbelow
  rw [hprops, List.length_map, h.fits.length_text] at hmoves
  rwa [Document.propertiesFrom_congr hstripped, hafter, List.map_append, List.map_append]

end ConstructorPlan.Offered

namespace Action

/-- No line of an offered constructor declares a class or a property. Carrying out the action, laid
out afterwards or not, leaves the properties of the class as they are, further down by the lines of
the constructor. -/
theorem execute_constructor_keeps_properties (d : Document) (p : Position) (s : Settings)
    (host : Host) (a : Action) (hk : 1 ≤ host.settings.tabSize)
    (h : d.constructorAction p s = some a) :
    ∃ plan, a.plan = .constructor plan ∧ plan.properties = d.propertiesOf plan.owner.name ∧
      (∀ l ∈ Document.linesOf plan.text, Undetected l) ∧
      ∃ applied, (a.execute host (memorySink none) {}).result = .ok applied ∧
        (a.execute host (memorySink none) {}).sink.textAfter d.text = applied.document.text ∧
        List.Forall₂ (PropertyDecl.Moves (plan.properties.length + 4)) plan.properties
          (applied.document.propertiesOf plan.owner.name) := by
  obtain ⟨plan, rfl, hoffered⟩ := Document.offered_of_constructorAction h
  obtain ⟨applied, ms, done⟩ := exists_carried
    (a := ⟨constructorTitle, constructorCommand, .constructor plan, d⟩) hk rfl hoffered.fits
  refine ⟨plan, rfl, hoffered.properties_eq, hoffered.undetected, applied, done.result, done.sink,
    ?_⟩
  rw [Document.propertiesOf, Document.lines_eq done.reads]
  exact hoffered.forall₂_propertiesFrom done.finishes.unindented_eq

/-- Two classes of one name, and a type that ends in the word class. -/
theorem execute_constructor_keeps_properties_of_namesakes :
    ∃ (d : Document) (a : Action),
      d.text = "public class A \x7b\n public X.class Y \x7b get; \x7d\n\x7d\npublic class A \x7b\npublic int Z \x7b get; \x7d" ∧
      (1 : Int) ≤ ({} : Host).settings.tabSize ∧ d.constructorAction ⟨4, 0⟩ {} = some a ∧
      ∃ plan, a.plan = .constructor plan ∧ plan.properties = d.propertiesOf plan.owner.name ∧
        (∀ l ∈ Document.linesOf plan.text, Undetected l) ∧
        ∃ applied, (a.execute {} (memorySink none) {}).result = .ok applied ∧
          (a.execute {} (memorySink none) {}).sink.textAfter d.text = applied.document.text ∧
          List.Forall₂ (PropertyDecl.Moves (plan.properties.length + 4)) plan.properties
            (applied.document.propertiesOf plan.owner.name) := by
  let d : Document := ⟨"public class A \x7b\n public X.class Y \x7b get; \x7d\n\x7d\npublic class A \x7b\npublic int Z \x7b get; \x7d", none⟩
  have hsome : (d.constructorAction ⟨4, 0⟩ {}).isSome = true := by decide +kernel
  obtain ⟨a, ha⟩ := Option.isSome_iff_exists.mp hsome
  exact ⟨d, a, rfl, by decide, ha,
    execute_constructor_keeps_properties d ⟨4, 0⟩ {} {} a (by decide) ha⟩

end Action

end CSharpActions
