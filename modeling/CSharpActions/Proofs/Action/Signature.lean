import CSharpActions.Proofs.Action.Constructor
import CSharpActions.Proofs.Codegen.Signature

/-!
# Signatures of offered constructors

Where the class has one of the modifiers that a signature begins with, the constructor that is
offered for it is found again in its own text, with the parameters that it was made of.
-/
namespace CSharpActions

namespace ConstructorPlan.Offered

variable {d : Document} {s : Settings} {plan : ConstructorPlan}

/-- The first signature of the text is that of the constructor. -/
theorem find?_text (h : plan.Offered d s) (hm : plan.owner.modifier ∈ PropertyDecl.modifiers) :
    Signature.find? plan.text = some
      { modifier := plan.owner.modifier
        name := plan.owner.name
        parameters := List.intercalate ", "
          (Codegen.constructorParameters (plan.properties.map (·.toField)))
        offset := (Document.indentOf (d.lines.getD plan.insertionLine [])).length } := by
  rw [h.text_eq]
  exact h.declared.find?_generateConstructor hm (Document.isProper_styleAt d s plan.insertionLine)

end ConstructorPlan.Offered

namespace Document

/-- The signature of an offered constructor is found in its text where the indentation ends, and its
parameters are the properties in the order of their lines. -/
theorem constructorAction_signature_reads_back (d : Document) (p : Position) (s : Settings)
    (a : Action) (plan : ConstructorPlan) (h : d.constructorAction p s = some a)
    (hp : a.plan = .constructor plan) (hm : plan.owner.modifier ∈ PropertyDecl.modifiers)
    (hr : ∀ q ∈ plan.properties, q.toField.IsReadable) :
    ∃ sig, Signature.find? plan.text = some sig ∧ sig.modifier = plan.owner.modifier ∧
      sig.name = plan.owner.name ∧
      sig.offset = (indentOf (d.lines.getD plan.insertionLine [])).length ∧
      Parameter.parse sig.parameters =
        plan.properties.map (fun q => ⟨q.type, Codegen.camelize q.name⟩) ∧
      plan.properties.Pairwise (·.lineNumber < ·.lineNumber) := by
  obtain ⟨offered, rfl, hoffered⟩ := offered_of_constructorAction h
  obtain rfl := Plan.constructor.inj hp
  refine ⟨_, hoffered.find?_text hm, rfl, rfl, rfl, ?_, hoffered.pairwise_properties⟩
  have hreadable : ∀ f ∈ offered.properties.map (·.toField), f.IsReadable :=
    List.forall_mem_map.mpr hr
  rw [hoffered.declared.parse_parameters hreadable, List.map_map]
  rfl

/-- Types with brackets, and a name whose small letter is two characters. -/
theorem constructorAction_signature_reads_back_with_brackets :
    ∃ (d : Document) (a : Action) (plan : ConstructorPlan),
      d.text = "protected class A\n\x7b\n\tpublic Map<T[]>? \u0130d \x7b get; \x7d\n\n\tprivate a]b[ X \x7b get; \x7d\n\x7d" ∧
      d.constructorAction ⟨4, 0⟩ {} = some a ∧ a.plan = .constructor plan ∧
      plan.owner.modifier ∈ PropertyDecl.modifiers ∧
      (∀ q ∈ plan.properties, q.toField.IsReadable) ∧
      ∃ sig, Signature.find? plan.text = some sig ∧ sig.modifier = plan.owner.modifier ∧
        sig.name = plan.owner.name ∧
        sig.offset = (indentOf (d.lines.getD plan.insertionLine [])).length ∧
        Parameter.parse sig.parameters =
          plan.properties.map (fun q => ⟨q.type, Codegen.camelize q.name⟩) ∧
        plan.properties.Pairwise (·.lineNumber < ·.lineNumber) := by
  let d : Document := ⟨"protected class A\n\x7b\n\tpublic Map<T[]>? \u0130d \x7b get; \x7d\n\n\tprivate a]b[ X \x7b get; \x7d\n\x7d", none⟩
  have hsome : (d.constructorAction ⟨4, 0⟩ {}).isSome = true := by decide +kernel
  have hall : (d.enclosingClass 4).all (fun owner : ClassDecl =>
      decide (owner.modifier ∈ PropertyDecl.modifiers ∧
        ∀ q ∈ d.propertiesOf owner.name, q.toField.IsReadable)) = true := by
    decide +kernel
  obtain ⟨a, ha⟩ := Option.isSome_iff_exists.mp hsome
  obtain ⟨owner, first, rest, ho, hprops, rfl⟩ := exists_of_constructorAction ha
  rw [ho, Option.all_some] at hall
  obtain ⟨hm, hr⟩ := of_decide_eq_true hall
  rw [hprops] at hr
  exact ⟨d, _, _, rfl, ha, rfl, hm, hr,
    constructorAction_signature_reads_back d ⟨4, 0⟩ {} _ _ ha rfl hm hr⟩

end Document

end CSharpActions
