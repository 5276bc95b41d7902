import CSharpActions.Proofs.Codegen.Fragment
import CSharpActions.Proofs.Text.Utf8

/-!
# Generated code can be encoded

No half of a surrogate pair is a word character, and a change of case brings none in. So generated
code has such a half only if one of the texts that it is made of has.
-/
namespace CSharpActions

open Text.Utf8 (Encodable encodable_append)

theorem Text.Utf8.encodable_cons {c : CodePoint} {t : Text} :
    Encodable (c :: t) ↔ c.char?.isSome = true ∧ Encodable t := List.forall_mem_cons

theorem Text.Utf8.encodable_intercalate {sep : Text} {parts : List Text} (hs : Encodable sep)
    (hp : ∀ part ∈ parts, Encodable part) : Encodable (List.intercalate sep parts) := by
  intro c hc
  by_contra hn
  exact Text.not_mem_intercalate (fun h => hn (hs c h)) (fun part hm h => hn (hp part hm c h)) hc

namespace Text

theorem char?_of_isWord {c : CodePoint} (h : isWord c = true) : c.char?.isSome = true := by
  have hall : ∀ r ∈ wordRanges, r.2 < 0xD800 ∨ 0xDFFF < r.1 := by decide +kernel
  obtain ⟨r, hr, hlow, hhigh⟩ := Ranges.exists_of_contains h
  cases c with
  | char x => rfl
  | surrogate o =>
    have ho := o.isLt
    have hall := hall r hr
    change r.1 ≤ 0xD800 + o.val at hlow
    change 0xD800 + o.val ≤ r.2 at hhigh
    omega

theorem char?_ofNat {n : Nat} (h : n < 0xD800 ∨ 0xDFFF < n) :
    (CodePoint.ofNat n).char?.isSome = true := by
  rw [CodePoint.ofNat, dif_neg (by omega)]
  rfl

theorem encodable_mapCase {expansions : List (Nat × List Nat)} {runs : List CaseRun}
    (he : ∀ e ∈ expansions, ∀ n ∈ e.2, n < 0xD800 ∨ 0xDFFF < n)
    (hr : ∀ r ∈ runs, 0 ≤ r.first + r.shift ∧
      (r.last + r.shift < 0xD800 ∨ 0xDFFF < r.first + r.shift))
    {c : CodePoint} (hc : c.char?.isSome = true) : Encodable (mapCase expansions runs c) := by
  intro x hx
  rcases cases_of_mem_mapCase hx with ⟨e, hm, n, hn, rfl⟩ | ⟨r, hm, hfirst, hlast, rfl⟩ | rfl
  · exact char?_ofNat (he e hm n hn)
  · have hrun := hr r hm
    exact char?_ofNat (by omega)
  · exact hc

theorem encodable_upper {c : CodePoint} (hc : c.char?.isSome = true) : Encodable (upper c) :=
  encodable_mapCase (by decide +kernel) (by decide +kernel) hc

theorem encodable_lower {c : CodePoint} (hc : c.char?.isSome = true) : Encodable (lower c) :=
  encodable_mapCase (by decide +kernel) (by decide +kernel) hc

end Text

namespace Codegen

variable {s : Settings} {style : Style}

theorem encodable_capitalize {name : Text} (h : Encodable name) : Encodable (capitalize name) := by
  cases name with
  | nil => exact h
  | cons c r =>
    obtain ⟨hc, hr⟩ := Text.Utf8.encodable_cons.mp h
    exact encodable_append.mpr ⟨Text.encodable_upper hc, hr⟩

theorem encodable_camelize {name : Text} (h : Encodable name) : Encodable (camelize name) := by
  intro x hx
  rcases mem_camelize hx with hx | ⟨c, hc, hx⟩
  · exact h x hx
  · exact Text.encodable_lower (h c hc) x hx

theorem encodable_of_isIndent {t : Text} (h : ∀ c ∈ t, Document.isIndent c = true) :
    Encodable t := by
  intro c hc
  rcases Document.isIndent_iff.mp (h c hc) with rfl | rfl
  · rfl
  · rfl

theorem encodable_of_isBreak {t : Text} (h : Line.IsBreak t) : Encodable t := by
  rcases h with rfl | rfl <;> decide

theorem encodable_selfPrefix (s : Settings) : Encodable (selfPrefix s) := by
  unfold selfPrefix
  split <;> decide

theorem encodable_memberName (kind : MemberKind) {parameter : Text}
    (hf : Encodable s.privatePrefix) (hp : Encodable parameter) :
    Encodable (memberName kind s parameter) := by
  cases kind with
  | field => exact encodable_append.mpr ⟨hf, hp⟩
  | readonlyProperty => exact encodable_capitalize hp
  | property => exact encodable_capitalize hp

theorem encodable_memberDeclaration (kind : MemberKind) {type member : Text}
    (ht : Encodable type) (hm : Encodable member) :
    Encodable (memberDeclaration kind type member) := by
  cases kind <;> simp only [memberDeclaration, encodable_append, ht, hm, and_true] <;>
    decide

/-- A member can be encoded if the prefix, the type and the parameter can. -/
theorem encodable_generateMember (kind : MemberKind) {type parameter : Text}
    (hs : style.IsProper s) (hf : Encodable s.privatePrefix) (ht : Encodable type)
    (hp : Encodable parameter) :
    Encodable (generateMember kind type parameter s style).declaration ∧
      Encodable (generateMember kind type parameter s style).assignment := by
  have hname := encodable_memberName kind hf hp
  have hdecl := encodable_memberDeclaration kind ht hname
  have hassign : Encodable (memberAssignment s (memberName kind s parameter) parameter) := by
    simp only [memberAssignment, encodable_append, encodable_selfPrefix s, hname, hp, true_and,
      and_true]
    decide
  have he := encodable_of_isBreak hs.eol
  constructor
  · simp only [generateMember, encodable_append]
    exact ⟨⟨encodable_of_isIndent hs.memberIndent, hdecl⟩, he⟩
  · simp only [generateMember, encodable_append]
    exact ⟨⟨encodable_of_isIndent hs.bodyIndent, hassign⟩, he⟩

/-- A constructor can be encoded if the names and types of its properties can. -/
theorem encodable_generateConstructor {modifier name : Text} {fields : List Field}
    (hs : style.IsProper s) (hm : Encodable modifier) (hn : Encodable name)
    (hf : ∀ f ∈ fields, Encodable f.type ∧ Encodable f.name) :
    Encodable (generateConstructor modifier name fields s style) := by
  have hpar : ∀ p ∈ constructorParameters fields, Encodable p := by
    intro p hp
    obtain ⟨f, hfm, rfl⟩ := List.mem_map.mp hp
    simp only [encodable_append]
    exact ⟨⟨(hf f hfm).1, by decide⟩, encodable_camelize (hf f hfm).2⟩
  have hassign : ∀ p ∈ constructorAssignments fields s, Encodable p := by
    intro p hp
    obtain ⟨f, hfm, rfl⟩ := List.mem_map.mp hp
    simp only [encodable_append]
    exact ⟨⟨⟨⟨encodable_selfPrefix s, (hf f hfm).2⟩, by decide⟩,
      encodable_camelize (hf f hfm).2⟩, by decide⟩
  have hlist := Text.Utf8.encodable_intercalate (by decide : Encodable ", ") hpar
  have houter := encodable_of_isIndent hs.memberIndent
  have hinner := encodable_of_isIndent hs.bodyIndent
  have he := encodable_of_isBreak hs.eol
  refine encodable_append.mpr ⟨Text.Utf8.encodable_intercalate he ?_, he⟩
  intro l hl
  simp only [constructorLines, List.mem_append, List.mem_cons, List.not_mem_nil, or_false] at hl
  rcases hl with ((rfl | rfl) | hl) | (rfl | rfl)
  · simp only [encodable_append]
    exact ⟨⟨⟨⟨⟨⟨houter, hm⟩, by decide⟩, hn⟩, by decide⟩, hlist⟩, by decide⟩
  · exact encodable_append.mpr ⟨houter, by decide⟩
  · obtain ⟨p, hp, rfl⟩ := List.mem_map.mp hl
    exact encodable_append.mpr ⟨hinner, hassign p hp⟩
  · exact encodable_append.mpr ⟨houter, by decide⟩
  · decide

end Codegen

end CSharpActions
