import CSharpActions.Proofs.Codegen.Constructor
import CSharpActions.Proofs.Declaration.Detection

/-!
# Generated lines declare nothing

A constructor for declared properties has no line on which the detectors find a class or a property,
even where a type or a name is a keyword: a field behind the word class is never behind a modifier,
and the brace stands alone.
-/
namespace CSharpActions

open Text (fields isBlank isBlank_of_isWord isWord)

namespace ClassDecl

variable {a b : Text} {c : CodePoint}

theorem parts_of_getLast? (h : a.getLast? = some c) (hc : isWord c = false) (b : Text) :
    Parts a b := by
  intro _ x hx
  rw [h] at hx
  exact Option.some.inj hx ▸ hc

theorem parts_of_mem (h : c ∈ b) (hc : c ∉ "class".text) (a : Text) : Parts a b := by
  rintro rfl
  exact absurd h hc

end ClassDecl

namespace Codegen

open ClassDecl (Parts parts_of_getLast? parts_of_mem)

variable {modifier name front : Text} {fs : List Field} {f : Field} {s : Settings} {style : Style}
  {x : CodePoint}

theorem isBlank_of_mem_camelize {word : Text} (hw : ∀ c ∈ word, isWord c = true)
    (hx : x ∈ camelize word) : isBlank x = false := by
  cases hb : isBlank x with
  | false => rfl
  | true =>
    have hall : ∀ r ∈ Text.blankRanges, ∀ n ∈ List.range' r.1 (r.2 + 1 - r.1),
        Text.unlettered.contains n = true := by
      decide +kernel
    obtain ⟨r, hr, hlow, hhigh⟩ := Text.Ranges.exists_of_contains hb
    have hu := hall r hr x.toNat (List.mem_range'_1.mpr ⟨hlow, by omega⟩)
    exact absurd hx (not_mem_camelize_of_isWord hw (Text.isWord_of_isBlank hb) hu)

/-- The list of parameters with the parenthesis that closes it. -/
def parametersCode (fs : List Field) : Text :=
  List.intercalate ", " (constructorParameters fs) ++ [.char ')']

theorem parametersCode_singleton (f : Field) :
    parametersCode [f] = f.type ++ .char ' ' :: (camelize f.name ++ [.char ')']) := by
  simp [parametersCode, constructorParameters, String.text]

theorem parametersCode_cons_cons (f g : Field) (fs : List Field) :
    parametersCode (f :: g :: fs) =
      f.type ++ .char ' ' :: (camelize f.name ++ [.char ',']) ++
        .char ' ' :: parametersCode (g :: fs) := by
  simp [parametersCode, constructorParameters, List.intercalate, String.text]

/-- The fields of a parameter list: the first one begins with what stands in front of the list, and
behind it each type follows a comma. -/
theorem exists_fields_parametersCode (hf : ∀ f ∈ fs, f.IsDeclared)
    (hfront : ∀ c ∈ front, isBlank c = false) :
    ∃ y rest, fields (front ++ parametersCode fs) = (front ++ y) :: rest ∧
      ((front ++ y) :: rest).IsChain Parts := by
  induction fs generalizing front with
  | nil =>
    refine ⟨[.char ')'], [], Text.fields_of_word (by simp [parametersCode]) ?_, .singleton _⟩
    exact List.forall_mem_append.mpr ⟨hfront, by decide⟩
  | cons f fs ih =>
    obtain ⟨hf, hfs⟩ := List.forall_mem_cons.mp hf
    have hcamel : ∀ c ∈ camelize f.name, isBlank c = false :=
      fun c hc => isBlank_of_mem_camelize hf.name hc
    have htype : ∀ c ∈ front ++ f.type, isBlank c = false :=
      List.forall_mem_append.mpr ⟨hfront, fun c hc => isBlank_of_isTypeChar (hf.type c hc)⟩
    have hne : front ++ f.type ≠ [] := by simp [hf.type_ne_nil]
    cases fs with
    | nil =>
      have hlast : ∀ c ∈ camelize f.name ++ [.char ')'], isBlank c = false :=
        List.forall_mem_append.mpr ⟨hcamel, by decide⟩
      refine ⟨f.type, [camelize f.name ++ [.char ')']], ?_, ?_⟩
      · rw [parametersCode_singleton, ← List.append_assoc,
          Text.fields_append_cons hne htype (by decide), Text.fields_of_word (by simp) hlast]
      · exact .cons_cons (parts_of_mem (c := .char ')') (by simp) (by decide) _) (.singleton _)
    | cons g fs =>
      have hcomma : ∀ c ∈ camelize f.name ++ [.char ','], isBlank c = false :=
        List.forall_mem_append.mpr ⟨hcamel, by decide⟩
      have hnil : ∀ c ∈ ([] : Text), isBlank c = false := by simp
      obtain ⟨y, rest, hrest, hchain⟩ := ih hfs hnil
      refine ⟨f.type, (camelize f.name ++ [.char ',']) :: y :: rest, ?_, ?_⟩
      · rw [parametersCode_cons_cons, List.append_assoc, List.cons_append, ← List.append_assoc,
          Text.fields_append_cons hne htype (by decide),
          Text.fields_append_cons (by simp) hcomma (by decide)]
        exact congrArg (fun l => _ :: _ :: l) hrest
      · have hcomma := parts_of_getLast? (a := camelize f.name ++ [.char ','])
          (List.getLast?_concat ..) (by decide) y
        exact .cons_cons (parts_of_mem (c := .char ',') (by simp) (by decide) _)
          (.cons_cons hcomma hchain)

theorem IsDeclared.isChain_signatureCode (h : IsDeclared modifier name fs) :
    (Text.fields (signatureCode modifier name fs)).IsChain Parts := by
  have hblank : ∀ w : Text, (∀ c ∈ w, isWord c = true) → ∀ c ∈ w, isBlank c = false :=
    fun _ hw c hc => isBlank_of_isWord (hw c hc)
  have hne : modifier ≠ [] := by
    have hall : ∀ m ∈ ClassDecl.accessModifiers, m ≠ [] := by decide
    exact hall modifier h.modifier
  have hfront : ∀ c ∈ name ++ [.char '('], isBlank c = false :=
    List.forall_mem_append.mpr ⟨hblank name h.name, by decide⟩
  obtain ⟨y, rest, hfields, hchain⟩ := exists_fields_parametersCode h.fields hfront
  have htext : signatureCode modifier name fs =
      modifier ++ .char ' ' :: ((name ++ [.char '(']) ++ parametersCode fs) := by
    simp [signatureCode, parametersCode, String.text]
  rw [htext, Text.fields_append_cons hne (hblank modifier (isWord_of_mem_modifier h.modifier))
    (by decide), hfields]
  exact .cons_cons (parts_of_mem (c := .char '(') (by simp) (by decide) modifier) hchain

theorem Field.IsDeclared.isChain_assignmentCode (h : f.IsDeclared) (s : Settings) :
    (fields (assignmentCode s f)).IsChain Parts := by
  have hname : ∀ c ∈ selfPrefix s ++ f.name, isBlank c = false := by
    refine List.forall_mem_append.mpr ⟨?_, fun c hc => isBlank_of_isWord (h.name c hc)⟩
    unfold selfPrefix
    split <;> decide
  have hlast : ∀ c ∈ camelize f.name ++ [.char ';'], isBlank c = false :=
    List.forall_mem_append.mpr ⟨fun c hc => isBlank_of_mem_camelize h.name hc, by decide⟩
  have htext : assignmentCode s f = (selfPrefix s ++ f.name) ++ .char ' ' ::
      ([.char '='] ++ .char ' ' :: (camelize f.name ++ [.char ';'])) := by
    simp [assignmentCode, String.text]
  rw [htext, Text.fields_append_cons (by simp [h.name_ne_nil]) hname (by decide),
    Text.fields_append_cons (by simp) (by decide) (by decide),
    Text.fields_of_word (by simp) hlast]
  have hsemicolon : Parts [.char '='] (camelize f.name ++ [.char ';']) :=
    parts_of_mem (c := .char ';') (by simp) (by decide) _
  exact .cons_cons (parts_of_mem (c := .char '=') (by simp) (by decide) _)
    (.cons_cons hsemicolon (.singleton _))

theorem undetected_of_isChain {code : Text} (hc : (fields code).IsChain Parts)
    (hp : CodePoint.char 'p' ∉ code ∨ CodePoint.char '\x7b' ∉ code) {ws : Text}
    (hw : ∀ c ∈ ws, Document.isIndent c = true) : Undetected (ws ++ code) := by
  have hblank : ∀ c ∈ ws, isBlank c = true := fun c hc => Document.isBlank_of_isIndent (hw c hc)
  refine ⟨fun n => ?_, ?_⟩
  · rw [ClassDecl.find?_blank_append hblank, ClassDecl.find?_eq_none hc]
  · rw [PropertyDecl.find?_blank_append hblank]
    cases hf : PropertyDecl.find? code with
    | none => rfl
    | some found =>
      obtain ⟨hletter, hbrace, -⟩ := PropertyDecl.exists_of_find? hf
      exact absurd ⟨hletter, hbrace⟩ (not_and_or.mpr hp)

/-- No line of a constructor declares anything. -/
theorem IsDeclared.undetected (h : IsDeclared modifier name fs) (hs : style.IsProper s) :
    ∀ l ∈ constructorLines modifier name fs s style, Undetected l := by
  have hbrace : ∀ c, c ≠ CodePoint.char 'p' → isBlank c = false →
      Undetected (style.memberIndent s ++ [c]) := by
    intro c hp hc
    refine undetected_of_isChain ?_ (Or.inl (by simpa using hp.symm)) hs.memberIndent
    rw [Text.fields_of_word (by simp) (by simpa using hc)]
    exact .singleton _
  have hempty : Undetected ([] ++ []) :=
    undetected_of_isChain (by rw [Text.fields]; exact .nil) (Or.inl (by simp)) (by simp)
  intro l hl
  simp only [constructorLines_eq, List.mem_append, List.mem_cons, List.mem_map, List.not_mem_nil,
    or_false] at hl
  rcases hl with ((rfl | rfl) | ⟨f, hf, rfl⟩) | (rfl | rfl)
  · exact undetected_of_isChain h.isChain_signatureCode
      (Or.inr (h.not_mem_signatureCode (by decide) (by decide) (by decide))) hs.memberIndent
  · exact hbrace _ (by decide) (by decide)
  · exact undetected_of_isChain ((h.fields f hf).isChain_assignmentCode s)
      (Or.inr ((h.fields f hf).not_mem_assignmentCode (by decide) (by decide) (by decide)))
      hs.bodyIndent
  · exact hbrace _ (by decide) (by decide)
  · exact hempty

end Codegen

end CSharpActions
