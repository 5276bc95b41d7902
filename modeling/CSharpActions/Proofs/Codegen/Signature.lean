import CSharpActions.Proofs.Codegen.Undetected
import CSharpActions.Proofs.Declaration.Printed
import CSharpActions.Proofs.Declaration.Quiet

/-!
# The signature of a constructor

The first line of a constructor is a signature, and nothing opens one in front of it. Its parameters
are printed from the properties, so they are read back where each type and each parameter name is a
word that a parameter list takes as it is.
-/
namespace CSharpActions.Codegen

open Text (isBlank_of_isWord isWord)
open PropertyDecl (isTypeChar)
open Parameter (isPlain IsToken IsPrintable)

/-- A field with a type and a parameter name that a parameter list takes as they are. -/
structure Field.IsReadable (f : Field) : Prop where
  angle : f.type.count (.char '<') = f.type.count (.char '>')
  square : f.type.count (.char '[') = f.type.count (.char ']')
  head : f.type.head? ≠ some (.char '[')
  type_not_mem : f.type ∉ Parameter.modifiers
  name_ne_nil : camelize f.name ≠ []
  name_not_mem : camelize f.name ∉ Parameter.modifiers

instance (f : Field) : Decidable f.IsReadable :=
  decidable_of_iff ((f.type.count (.char '<') = f.type.count (.char '>') ∧
      f.type.count (.char '[') = f.type.count (.char ']')) ∧
      (f.type.head? ≠ some (.char '[') ∧ f.type ∉ Parameter.modifiers) ∧
      camelize f.name ≠ [] ∧ camelize f.name ∉ Parameter.modifiers)
    ⟨fun ⟨⟨ha, hs⟩, ⟨hh, ht⟩, hne, hn⟩ => ⟨ha, hs, hh, ht, hne, hn⟩,
      fun ⟨ha, hs, hh, ht, hne, hn⟩ => ⟨⟨ha, hs⟩, ⟨hh, ht⟩, hne, hn⟩⟩

/-- The parameter of a constructor for a field. -/
def Field.parameter (f : Field) : Parameter := ⟨f.type, camelize f.name⟩

variable {modifier name : Text} {fields : List Field} {f : Field} {s : Settings} {style : Style}
  {x : CodePoint}

theorem constructorParameters_eq (fields : List Field) :
    constructorParameters fields = (fields.map Field.parameter).map Parameter.print := by
  rw [List.map_map]
  refine List.map_congr_left fun f _ => ?_
  simp [Field.parameter, Parameter.print, String.text]

theorem isPlain_of_isTypeChar (h : isTypeChar x = true) : isPlain x = true := by
  have hall : ∀ c ∈ Parameter.symbols, isTypeChar c = false := by decide
  have hsymbol : x ∉ Parameter.symbols := by
    intro hx
    rw [hall x hx] at h
    exact Bool.false_ne_true h
  simp [isPlain, isBlank_of_isTypeChar h, hsymbol]

namespace Field.IsDeclared

theorem isPlain_of_mem_camelize (h : f.IsDeclared) (hx : x ∈ camelize f.name) :
    isPlain x = true := by
  have hall : ∀ c ∈ Parameter.symbols, isWord c = false ∧ Text.unlettered.has c = true := by
    decide
  have hsymbol : x ∉ Parameter.symbols :=
    fun hm => not_mem_camelize_of_isWord h.name (hall x hm).1 (hall x hm).2 hx
  simp [isPlain, isBlank_of_mem_camelize h.name hx, hsymbol]

/-- No bracket comes into the name of a parameter. -/
theorem count_camelize (h : f.IsDeclared) {c : CodePoint} (hc : c ∈ "<>[]".text) :
    (camelize f.name).count c = 0 := by
  have hall : ∀ c ∈ "<>[]".text, isWord c = false ∧ Text.unlettered.has c = true := by decide
  exact List.count_eq_zero.mpr (not_mem_camelize_of_isWord h.name (hall c hc).1 (hall c hc).2)

theorem isPrintable (h : f.IsDeclared) (hr : f.IsReadable) : f.parameter.IsPrintable where
  type :=
    { ne_nil := h.type_ne_nil
      plain := fun c hc => isPlain_of_isTypeChar (h.type c hc)
      angle := hr.angle
      square := hr.square
      not_mem := hr.type_not_mem }
  name :=
    { ne_nil := hr.name_ne_nil
      plain := fun _ => h.isPlain_of_mem_camelize
      angle := (h.count_camelize (by decide)).trans (h.count_camelize (by decide)).symm
      square := (h.count_camelize (by decide)).trans (h.count_camelize (by decide)).symm
      not_mem := hr.name_not_mem }
  head := hr.head

end Field.IsDeclared

namespace IsDeclared

/-- The parameters of a constructor are read back. -/
theorem parse_parameters (h : IsDeclared modifier name fields)
    (hr : ∀ f ∈ fields, f.IsReadable) :
    Parameter.parse (List.intercalate ", " (constructorParameters fields)) =
      fields.map Field.parameter := by
  rw [constructorParameters_eq]
  refine Parameter.parse_print fun q hq => ?_
  obtain ⟨f, hf, rfl⟩ := List.mem_map.mp hq
  exact (h.fields f hf).isPrintable (hr f hf)

theorem whole_signatureCode (h : IsDeclared modifier name fields)
    (hm : modifier ∈ PropertyDecl.modifiers) :
    Signature.Whole (signatureCode modifier name fields) modifier name
      (List.intercalate ", " (constructorParameters fields)) := by
  have hself : ∀ m ∈ PropertyDecl.modifiers,
      List.Forall₂ (fun p c => Signature.matchesLetter p c = true) m m := by
    decide
  have hclose := h.not_mem_parameters (x := .char ')') (by decide) (by decide) (by decide)
  have htrim : Text.trim name = name :=
    Text.trim_eq_self (fun c hc => isBlank_of_isWord (h.name c (List.mem_of_head? hc)))
      fun c hc => isBlank_of_isWord (h.name c (List.mem_of_getLast? hc))
  refine ⟨name, ⟨⟨modifier, hm, hself modifier hm⟩, Text.not_mem_of_forall h.name (by decide),
    Text.not_mem_of_forall h.name (by decide), .char ' ', by decide, ?_⟩, hclose, htrim.symm⟩
  simp [signatureCode, String.text]

/-- The first signature of a constructor is its own, behind the indentation. -/
theorem find?_generateConstructor (h : IsDeclared modifier name fields)
    (hm : modifier ∈ PropertyDecl.modifiers) (hs : style.IsProper s) :
    Signature.find? (generateConstructor modifier name fields s style) =
      some ⟨modifier, name, List.intercalate ", " (constructorParameters fields),
        (style.memberIndent s).length⟩ := by
  obtain ⟨rest, htext⟩ : ∃ rest, generateConstructor modifier name fields s style =
      style.memberIndent s ++ (signatureCode modifier name fields ++ rest) := by
    rw [generateConstructor_eq, constructorLines_eq, List.cons_append, List.cons_append,
      List.map_cons, Line.join_cons, Line.text, List.append_assoc, List.append_assoc]
    exact ⟨_, rfl⟩
  have hsilent := Signature.silent_of_forall
    (fun c hc => Signature.isLetter_of_isIndent (hs.memberIndent c hc))
    (signatureCode modifier name fields)
  rw [Signature.find?, htext, ((h.whole_signatureCode hm).leftmost?_eq_iff _ rest).mpr hsilent]
  rfl

end IsDeclared

end CSharpActions.Codegen
