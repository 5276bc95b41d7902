import CSharpActions.Proofs.Action.Execution
import CSharpActions.Proofs.Codegen.Constructor
import CSharpActions.Proofs.Declaration.Lines

/-!
# Plans for constructors

The plan for a constructor has what declarations say about the class and its properties. Its lines
go above the line of the first property.
-/
namespace CSharpActions

open Codegen (constructorLines generateConstructor)

/-- The plan is one for the properties of a class of the document. -/
structure ConstructorPlan.Offered (d : Document) (s : Settings) (plan : ConstructorPlan) : Prop
    where
  fits : plan.Fits d
  properties_eq : plan.properties = d.propertiesOf plan.owner.name
  exists_first : ∃ first rest, plan.properties = first :: rest ∧
    first.lineNumber = plan.insertionLine
  declared : Codegen.IsDeclared plan.owner.modifier plan.owner.name
    (plan.properties.map (·.toField))
  text_eq : plan.text = generateConstructor plan.owner.modifier plan.owner.name
    (plan.properties.map (·.toField)) s (d.styleAt s plan.insertionLine)

namespace Document

variable {d : Document} {p : Position} {s : Settings}

theorem isDeclared_toField {name : Text} {q : PropertyDecl} (h : q ∈ d.propertiesOf name) :
    q.toField.IsDeclared := by
  obtain ⟨-, l, -, -, hfind⟩ := exists_getElem?_of_mem_propertiesFrom h
  obtain ⟨htype, hname⟩ := PropertyDecl.forall_of_find? hfind
  obtain ⟨-, -, htypeNe, hnameNe⟩ := PropertyDecl.exists_of_find? hfind
  exact ⟨htypeNe, htype, hnameNe, hname⟩

theorem offered_of_constructorAction {a : Action} (h : d.constructorAction p s = some a) :
    ∃ plan, a = ⟨Action.constructorTitle, Action.constructorCommand, .constructor plan, d⟩ ∧
      plan.Offered d s := by
  obtain ⟨owner, first, rest, ho, hprops, rfl⟩ := exists_of_constructorAction h
  obtain ⟨plan, hplan, hfits⟩ := mem_constructorAction h
  obtain rfl := Plan.constructor.inj (congrArg Action.plan hplan)
  obtain ⟨line, -, i, hclass⟩ := exists_of_lastClass ho
  obtain ⟨hmodifier, hname⟩ := ClassDecl.forall_of_find? hclass
  refine ⟨_, rfl, hfits, hprops.symm, ⟨first, rest, rfl, rfl⟩, ⟨hmodifier, hname, ?_⟩, rfl⟩
  intro f hf
  obtain ⟨q, hq, rfl⟩ := List.mem_map.mp hf
  exact isDeclared_toField (hprops ▸ hq)

end Document

namespace ConstructorPlan.Offered

variable {d : Document} {s : Settings} {plan : ConstructorPlan}

theorem pairwise_properties (h : plan.Offered d s) :
    plan.properties.Pairwise (·.lineNumber < ·.lineNumber) := by
  rw [h.properties_eq]
  exact Document.pairwise_propertiesFrom plan.owner.name none 0 d.lines

theorem ofFragment_eq (h : plan.Offered d s) :
    Line.ofFragment plan.text = (constructorLines plan.owner.modifier plan.owner.name
      (plan.properties.map (·.toField)) s (d.styleAt s plan.insertionLine)).map
        fun l => ⟨l, d.eol⟩ := by
  rw [h.text_eq]
  exact h.declared.ofFragment_eq (Document.isProper_styleAt d s plan.insertionLine)

/-- The lines of the constructor go above the line of the first property. -/
theorem exists_linesAfter (h : plan.Offered d s) :
    ∃ pre l post, Line.read d.text = pre ++ l :: post ∧ pre.length = plan.insertionLine ∧
      d.lines.getD plan.insertionLine [] = l.content ∧
      (PropertyDecl.find? l.content).isSome ∧
      (Plan.constructor plan).linesAfter d = pre ++ (Line.ofFragment plan.text ++ l :: post) := by
  obtain ⟨first, rest, hprops, hfirst⟩ := h.exists_first
  have hmem : first ∈ d.propertiesOf plan.owner.name := by
    rw [← h.properties_eq, hprops]
    exact List.mem_cons_self
  obtain ⟨i, line, hi, hline, hfind⟩ := Document.exists_getElem?_of_mem_propertiesFrom hmem
  obtain rfl : i = plan.insertionLine := by omega
  rw [Document.lines_eq (Line.reads_read d.text), List.getElem?_map] at hline
  obtain ⟨l, hl, rfl⟩ := Option.map_eq_some_iff.mp hline
  obtain ⟨pre, post, hsplit, hlen⟩ :
      ∃ pre post, Line.read d.text = pre ++ l :: post ∧ pre.length = plan.insertionLine :=
    ⟨_, _, Line.split_of_getElem? hl⟩
  refine ⟨pre, l, post, hsplit, hlen, ?_, by rw [hfind]; rfl, ?_⟩
  · rw [Document.lines_eq (Line.reads_read d.text), List.getD_eq_getElem?_getD, List.getElem?_map,
      hl]
    rfl
  · rw [Plan.linesAfter, hsplit, ← hlen, Line.insertAbove_inside]

end ConstructorPlan.Offered

end CSharpActions
