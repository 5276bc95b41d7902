import CSharpActions.Proofs.Codegen.Fragment
import CSharpActions.Proofs.Declaration.Parameter

/-!
# The code of a constructor

What stands on the lines of a constructor behind their indentation, when its class and its
properties have been found in declarations: names are made of word characters, and types of those
and a few more. A change of case brings in no other character of ASCII.
-/
namespace CSharpActions.Codegen

open Text (isBlank_of_isWord unlettered)
open PropertyDecl (isTypeChar)

/-- A property as declarations have it. -/
structure Field.IsDeclared (f : Field) : Prop where
  type_ne_nil : f.type ≠ []
  type : ∀ c ∈ f.type, isTypeChar c = true
  name_ne_nil : f.name ≠ []
  name : ∀ c ∈ f.name, Text.isWord c = true

/-- A class and its properties as declarations have them. -/
structure IsDeclared (modifier name : Text) (fields : List Field) : Prop where
  modifier : modifier ∈ ClassDecl.accessModifiers
  name : ∀ c ∈ name, Text.isWord c = true
  fields : ∀ f ∈ fields, f.IsDeclared

def signatureCode (modifier name : Text) (fields : List Field) : Text :=
  modifier ++ " " ++ name ++ "(" ++ List.intercalate ", " (constructorParameters fields) ++ ")"

def assignmentCode (s : Settings) (f : Field) : Text :=
  selfPrefix s ++ f.name ++ " = " ++ camelize f.name ++ ";"

variable {modifier name : Text} {fields : List Field} {f : Field} {s : Settings} {style : Style}
  {x : CodePoint}

theorem constructorLines_eq (modifier name : Text) (fields : List Field) (s : Settings)
    (style : Style) :
    constructorLines modifier name fields s style =
      [style.memberIndent s ++ signatureCode modifier name fields,
        style.memberIndent s ++ "\x7b"] ++
      fields.map (fun f => style.bodyIndent s ++ assignmentCode s f) ++
      [style.memberIndent s ++ "\x7d", []] := by
  simp only [constructorLines, constructorAssignments, signatureCode, assignmentCode,
    List.map_map, List.append_assoc]
  rfl

theorem isBlank_of_isTypeChar (h : isTypeChar x = true) : Text.isBlank x = false := by
  simp only [isTypeChar, Bool.or_eq_true, decide_eq_true_eq] at h
  rcases h with (((((h | rfl) | rfl) | rfl) | rfl) | rfl) | rfl
  · exact isBlank_of_isWord h
  all_goals decide

theorem isWord_of_isTypeChar (h : isTypeChar x = false) : Text.isWord x = false := by
  simp only [isTypeChar, Bool.or_eq_false_iff] at h
  exact h.1.1.1.1.1.1

/-- Such a character does not come into the camel case of a word either. -/
theorem not_mem_camelize_of_isWord {word : Text} (hw : ∀ c ∈ word, Text.isWord c = true)
    (hx : Text.isWord x = false) (hu : unlettered.has x = true) : x ∉ camelize word := by
  have hn : x ∉ word := Text.not_mem_of_forall hw hx
  intro hm
  rcases mem_camelize hm with hm | ⟨c, hc, hm⟩
  · exact hn hm
  · exact hn (Text.eq_of_mem_lower hm hu ▸ hc)

theorem isWord_of_mem_modifier (hm : modifier ∈ ClassDecl.accessModifiers) :
    ∀ c ∈ modifier, Text.isWord c = true := by
  have hall : ∀ m ∈ ClassDecl.accessModifiers, ∀ c ∈ m, Text.isWord c = true := by decide +kernel
  exact hall modifier hm

theorem IsDeclared.not_mem_parameters (h : IsDeclared modifier name fields)
    (hx : isTypeChar x = false) (hu : unlettered.has x = true) (hs : x ∉ ", ".text) :
    x ∉ List.intercalate ", " (constructorParameters fields) := by
  have hw := isWord_of_isTypeChar hx
  refine Text.not_mem_intercalate hs fun part hpart => ?_
  obtain ⟨f, hf, rfl⟩ := List.mem_map.mp hpart
  have htype : x ∉ f.type := Text.not_mem_of_forall (h.fields f hf).type hx
  have hcamel : x ∉ camelize f.name := not_mem_camelize_of_isWord (h.fields f hf).name hw hu
  simp_all [String.text]

theorem IsDeclared.not_mem_signatureCode (h : IsDeclared modifier name fields)
    (hx : isTypeChar x = false) (hu : unlettered.has x = true) (hs : x ∉ " (,)".text) :
    x ∉ signatureCode modifier name fields := by
  have hw := isWord_of_isTypeChar hx
  have hmod : x ∉ modifier := Text.not_mem_of_forall (isWord_of_mem_modifier h.modifier) hw
  have hname : x ∉ name := Text.not_mem_of_forall h.name hw
  have hparams := h.not_mem_parameters hx hu (by simp_all [String.text])
  simp_all [signatureCode, String.text]

theorem Field.IsDeclared.not_mem_assignmentCode (h : f.IsDeclared) (hx : isTypeChar x = false)
    (hu : unlettered.has x = true) (hs : x ∉ " =;".text) : x ∉ assignmentCode s f := by
  have hw := isWord_of_isTypeChar hx
  have hself : x ∉ selfPrefix s := by
    have hall : ∀ c ∈ "this.".text, isTypeChar c = true := by decide +kernel
    unfold selfPrefix
    split
    · exact Text.not_mem_of_forall hall hx
    · simp [String.text]
  have hname : x ∉ f.name := Text.not_mem_of_forall h.name hw
  have hcamel : x ∉ camelize f.name := not_mem_camelize_of_isWord h.name hw hu
  simp_all [assignmentCode, String.text]

/-- The lines of a constructor are those that its text is read as. -/
theorem IsDeclared.ofFragment_eq (h : IsDeclared modifier name fields) (hs : style.IsProper s) :
    Line.ofFragment (generateConstructor modifier name fields s style) =
      (constructorLines modifier name fields s style).map fun l => ⟨l, style.eol⟩ := by
  have hfeed : Text.isWord (.char '\n') = false := by decide
  have hfields : ∀ f ∈ fields, CodePoint.char '\n' ∉ f.type ∧ CodePoint.char '\n' ∉ f.name :=
    fun f hf => ⟨Text.not_mem_of_forall (h.fields f hf).type (by decide),
      Text.not_mem_of_forall (h.fields f hf).name hfeed⟩
  have hplain := plain_constructorLines hs
    (Text.not_mem_of_forall (isWord_of_mem_modifier h.modifier) hfeed)
    (Text.not_mem_of_forall h.name hfeed) hfields
  rw [generateConstructor_eq, Line.ofFragment_join]
  intro l hl
  obtain ⟨t, ht, rfl⟩ := List.mem_map.mp hl
  exact Line.inner_of_plain (hplain t ht) hs.eol

end CSharpActions.Codegen
