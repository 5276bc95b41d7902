import CSharpActions.Proofs.Codegen.Constructor
import CSharpActions.Proofs.Layout.Settled

/-!
# The rows of a constructor

At any depth the lines of a constructor are settled rows: its code is code without braces, and the
assignments stand in one block.
-/
namespace CSharpActions

namespace Layout

variable {code : Text} {kind : LineKind}

/-- Code with none of some characters, which begins and ends as code does. -/
theorem unlabelled_of_not_mem (hk : kind ≠ .label)
    (hno : ∀ x ∈ "\"'/#\x7b\x7d".text, x ∉ code)
    (hhead : ∃ c, code.head? = some c ∧ Text.isBlank c = false)
    (hlast : ∃ c, code.getLast? = some c ∧ Text.isBlank c = false ∧ c ≠ .char ':') :
    kind.Unlabelled code := by
  obtain ⟨b, hb, hbBlank⟩ := hhead
  obtain ⟨e, he, heBlank, hcolon⟩ := hlast
  have hno : ∀ {x}, x ∈ "\"'/#\x7b\x7d".text → x ∉ code := fun hx => hno _ hx
  have hslash : CodePoint.char '/' ∉ code := hno (by decide)
  have hopen : CodePoint.char '\x7b' ∉ code := hno (by decide)
  have hclose : CodePoint.char '\x7d' ∉ code := hno (by decide)
  have hlabel : isLabel code = false := by
    cases hl : isLabel code with
    | false => rfl
    | true =>
      rw [getLast?_of_isLabel hl] at he
      exact absurd (Option.some.inj he).symm hcolon
  exact
    ⟨{ trim_eq := Text.trim_eq_self (by simp [hb, hbBlank]) (by simp [he, heBlank])
       ne_nil := by rintro rfl; simp at hb
       no_quotes := ⟨hno (by decide), hno (by decide)⟩
       no_comments := ⟨not_occursIn_of_not_mem hslash, not_occursIn_of_not_mem hslash⟩
       head_ne := fun h => hno (x := .char '#') (by decide) (List.mem_of_head? h)
       not_closing := decide_eq_false fun h => hclose (List.mem_of_head? h)
       braces := by rw [List.count_eq_zero.mpr hopen, List.count_eq_zero.mpr hclose]
       label_iff := iff_of_false (by simp [hlabel]) hk },
      hk⟩

end Layout

namespace Codegen

open Layout

variable {modifier name : Text} {fields : List Field} {s : Settings} {n : Nat} {rows : List Row}

/-- The rows of a constructor at depth `n`. -/
def constructorRows (n : Nat) (modifier name : Text) (fields : List Field) (s : Settings) :
    List Row :=
  ⟨n, signatureCode modifier name fields⟩ :: ⟨n, ['\x7b']⟩ ::
    (fields.map (fun f => ⟨n + 1, assignmentCode s f⟩) ++ [⟨n, ['\x7d']⟩])

theorem IsDeclared.unlabelled_signatureCode (h : IsDeclared modifier name fields) :
    LineKind.header.Unlabelled (signatureCode modifier name fields) := by
  have hhead : ∃ c, modifier.head? = some c ∧ Text.isBlank c = false := by
    have hall : ∀ m ∈ ClassDecl.accessModifiers, ∃ c, m.head? = some c ∧
        Text.isBlank c = false := by
      simp only [ClassDecl.accessModifiers, List.forall_mem_cons]
      decide
    exact hall modifier h.modifier
  refine unlabelled_of_not_mem (by decide) (fun x hx => ?_) ?_ ?_
  · have hall : ∀ x ∈ "\"'/#\x7b\x7d".text, PropertyDecl.isTypeChar x = false ∧
        Text.unlettered.has x = true ∧ x ∉ " (,)".text := by decide +kernel
    obtain ⟨htype, hu, hs⟩ := hall x hx
    exact h.not_mem_signatureCode htype hu hs
  · obtain ⟨c, hc, hb⟩ := hhead
    refine ⟨c, ?_, hb⟩
    simp [signatureCode, hc]
  · exact ⟨.char ')', List.getLast?_append_of_ne_nil _ (by decide), by decide, by decide⟩

theorem Field.IsDeclared.unlabelled_assignmentCode {f : Field} (h : f.IsDeclared) :
    LineKind.statement.Unlabelled (assignmentCode s f) := by
  refine unlabelled_of_not_mem (by decide) (fun x hx => ?_) ?_ ?_
  · have hall : ∀ x ∈ "\"'/#\x7b\x7d".text, PropertyDecl.isTypeChar x = false ∧
        Text.unlettered.has x = true ∧ x ∉ " =;".text := by decide +kernel
    obtain ⟨htype, hu, hs⟩ := hall x hx
    exact h.not_mem_assignmentCode htype hu hs
  · obtain ⟨c, r, hname⟩ := List.exists_cons_of_ne_nil h.name_ne_nil
    have hc : Text.isBlank c = false := Text.isBlank_of_isWord (h.name c (by simp [hname]))
    cases hthis : s.useThis with
    | true => exact ⟨.char 't', by simp [assignmentCode, selfPrefix, hthis, String.text], by decide⟩
    | false => exact ⟨c, by simp [assignmentCode, selfPrefix, hthis, hname, String.text], hc⟩
  · exact ⟨.char ';', List.getLast?_append_of_ne_nil _ (by decide), by decide, by decide⟩

/-- The rows of a constructor may stand between settled rows. -/
theorem IsDeclared.settled_constructorRows (h : IsDeclared modifier name fields)
    (hs : Settled n rows) : Settled n (constructorRows n modifier name fields s ++ rows) := by
  have hbody : ∀ fs : List Field, (∀ f ∈ fs, f.IsDeclared) → ∀ rest, Settled (n + 1) rest →
      Settled (n + 1) (fs.map (fun f => ⟨n + 1, assignmentCode s f⟩) ++ rest) := by
    intro fs
    induction fs with
    | nil => exact fun _ _ hrest => hrest
    | cons f fs ih =>
      intro hfs rest hrest
      obtain ⟨hf, hfs⟩ := List.forall_mem_cons.mp hfs
      exact hf.unlabelled_assignmentCode.settled_cons (ih hfs rest hrest)
  have hrows := h.unlabelled_signatureCode.settled_cons
    (settled_block (hbody fields h.fields _ (settled_closing hs)))
  rw [constructorRows, List.cons_append, List.cons_append, List.append_assoc, List.singleton_append]
  exact hrows

theorem IsDeclared.isBare_of_mem_constructorRows (h : IsDeclared modifier name fields) {r : Row}
    (hr : r ∈ constructorRows n modifier name fields s) : IsBare r.code := by
  simp only [constructorRows, List.mem_cons, List.mem_append, List.mem_map, List.not_mem_nil,
    or_false] at hr
  rcases hr with rfl | rfl | ⟨f, hf, rfl⟩ | rfl
  · exact h.unlabelled_signatureCode.1.toIsBare
  · exact isCode_brace.1.isBare
  · exact (h.fields f hf).unlabelled_assignmentCode.1.toIsBare
  · exact isCode_brace.2.isBare

/-- The lines of a constructor are its rows and a blank line, if the style is that of the depth. -/
theorem constructorLines_eq_rows {style : Style} {unit : Text}
    (hi : style.memberIndent s = (List.replicate n unit).flatten) (hu : style.step s = unit) :
    constructorLines modifier name fields s style =
      (constructorRows n modifier name fields s).map (Row.text unit) ++ [[]] := by
  have hb : style.bodyIndent s = (List.replicate (n + 1) unit).flatten := by
    rw [Style.bodyIndent, hi, hu, List.replicate_succ', List.flatten_append, List.flatten_singleton]
  rw [constructorLines_eq, hi, hb, constructorRows]
  simp only [List.map_cons, List.map_append, List.map_map, List.map_nil, List.cons_append,
    List.append_assoc, List.nil_append]
  rfl

end Codegen

end CSharpActions
