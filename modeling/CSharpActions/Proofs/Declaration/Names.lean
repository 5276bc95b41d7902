import CSharpActions.Declaration.Enclosing
import CSharpActions.Declaration.Parameter
import CSharpActions.Declaration.Signature
import CSharpActions.Proofs.Text.Fragment

/-!
# Names and types of declarations

The characters that the names, types and modifiers of classes, properties and parameters can have.
-/
namespace CSharpActions

theorem Text.not_mem_of_forall {p : CodePoint → Bool} {t : Text} {x : CodePoint}
    (h : ∀ c ∈ t, p c = true) (hx : p x = false) : x ∉ t := by
  intro hm
  rw [h x hm] at hx
  exact Bool.false_ne_true hx.symm

theorem Text.mem_of_mem_fields {t w : Text} (h : w ∈ fields t) {c : CodePoint} (hc : c ∈ w) :
    c ∈ t ∧ isBlank c = false := by
  fun_induction fields t with
  | case1 => simp at h
  | case2 x r hx ih =>
    obtain ⟨hm, hb⟩ := ih h
    exact ⟨List.mem_cons_of_mem x hm, hb⟩
  | case3 x r hx ih =>
    rcases List.mem_cons.mp h with rfl | h
    · rcases List.mem_cons.mp hc with rfl | hc
      · exact ⟨List.mem_cons_self, by simpa using hx⟩
      · have hp := List.mem_takeWhile_imp hc
        exact ⟨List.mem_cons_of_mem x ((List.takeWhile_prefix _).subset hc), by simpa using hp⟩
    · obtain ⟨hm, hb⟩ := ih h
      exact ⟨List.mem_cons_of_mem x ((List.dropWhile_suffix _).subset hm), hb⟩

namespace Parameter

theorem mem_of_mem_splitFrom {s : Nesting} {t part : Text} (h : part ∈ splitFrom s t)
    {c : CodePoint} (hc : c ∈ part) : c ∈ t := by
  by_contra hn
  rw [← intercalate_splitFrom s t, List.intercalate] at hn
  refine hn (List.mem_flatten.mpr ⟨part, ?_, hc⟩)
  generalize splitFrom s t = parts at h
  induction parts with
  | nil => simp at h
  | cons p ps ih =>
    cases ps with
    | nil => simpa using h
    | cons q ps =>
      rw [List.intersperse_cons_cons]
      rcases List.mem_cons.mp h with rfl | h
      · exact List.mem_cons_self
      · exact List.mem_cons_of_mem _ (List.mem_cons_of_mem _ (ih h))

theorem attribute?_suffix {t s : Text} (h : attribute? t = some s) : s <:+ t := by
  unfold attribute? at h
  split at h
  · rename_i r
    split at h
    · rename_i x s' hs
      obtain rfl := Option.some.inj h
      have hdrop : x :: s' <:+ r := hs ▸ List.dropWhile_suffix _
      exact (List.dropWhile_suffix _).trans
        ((List.suffix_cons x s').trans (hdrop.trans (List.suffix_cons _ r)))
    · simp at h
  · simp at h

theorem skipAttributes_suffix (t : Text) : skipAttributes t <:+ t := by
  fun_induction skipAttributes t with
  | case1 t r h ih => exact ih.trans (attribute?_suffix h)
  | case2 t h => exact List.suffix_refl t

/-- Attributes stand in front of what is declared, and a default value behind it. -/
theorem declaration_suffix (part : Text) : declaration part <:+ part.takeWhile (· ≠ .char '=') := by
  unfold declaration dropAttributes
  split
  · rename_i r hr
    exact (skipAttributes_suffix r).trans ((attribute?_suffix hr).trans (List.dropWhile_suffix _))
  · exact List.suffix_refl _

theorem mem_of_mem_declaration {part : Text} {c : CodePoint} (hc : c ∈ declaration part) :
    c ∈ part :=
  (List.takeWhile_prefix _).subset ((declaration_suffix part).subset hc)

/-- The words of a declaration are those of the type and the name. -/
theorem exists_tokens_eq {part : Text} {q : Parameter} (h : ofPart? part = some q) :
    ∃ ws, balanced (declaration part) = true ∧ ws ≠ [] ∧ tokens part = ws ++ [q.name] ∧
      q.type = List.intercalate [.char ' '] ws := by
  unfold ofPart? at h
  split at h
  · rename_i hb
    dsimp only at h
    split at h
    · simp at h
    · rename_i hlen
      obtain rfl := Option.some.inj h
      have hne : tokens part ≠ [] := by
        intro hnil
        simp [hnil] at hlen
      refine ⟨(tokens part).dropLast, hb, ?_, ?_, rfl⟩
      · rw [← List.length_pos_iff, List.length_dropLast]
        omega
      · rw [List.getLastD_eq_getLast?, List.getLast?_eq_some_getLast hne, Option.getD_some,
          List.dropLast_append_getLast]
  · simp at h

theorem exists_of_typeOf? {raw name type : Text} (h : typeOf? raw name = some type) :
    ∃ part ∈ split raw, balanced (declaration part) = true ∧
      type = List.intercalate [.char ' '] (tokens part).dropLast := by
  obtain ⟨p, hf, rfl⟩ := Option.map_eq_some_iff.mp h
  obtain ⟨part, hpart, hp⟩ := List.mem_filterMap.mp (List.mem_of_find?_eq_some hf)
  obtain ⟨ws, hb, -, htokens, htype⟩ := exists_tokens_eq hp
  exact ⟨part, hpart, hb, by rw [htokens, List.dropLast_concat, htype]⟩

theorem mem_of_mem_tokens {part w : Text} (hw : w ∈ (tokens part).dropLast) {c : CodePoint}
    (hc : c ∈ w) : c ∈ declaration part ∧ Text.isBlank c = false :=
  Text.mem_of_mem_fields (List.mem_filter.mp (List.dropLast_subset _ hw)).1 hc

/-- The characters of a type are spaces or stand in the list. -/
theorem mem_of_mem_type {raw name type : Text} (h : typeOf? raw name = some type) {c : CodePoint}
    (hc : c ∈ type) : c = .char ' ' ∨ c ∈ raw := by
  obtain ⟨part, hpart, -, rfl⟩ := exists_of_typeOf? h
  by_contra hn
  rw [not_or] at hn
  refine Text.not_mem_intercalate (by simpa using hn.1) (fun w hw hcw => ?_) hc
  have hm := mem_of_mem_declaration (mem_of_mem_tokens hw hcw).1
  exact hn.2 (mem_of_mem_splitFrom hpart hm)

/-- A type has no blank but the space, and no round bracket where the list has no closing one. -/
theorem not_mem_type {raw name type : Text} (h : typeOf? raw name = some type) :
    CodePoint.char '\n' ∉ type ∧ (CodePoint.char ')' ∉ raw → CodePoint.char '(' ∉ type) := by
  obtain ⟨part, hpart, hb, rfl⟩ := exists_of_typeOf? h
  refine ⟨?_, ?_⟩
  · refine Text.not_mem_intercalate (by decide) fun w hw hc => ?_
    exact absurd (mem_of_mem_tokens hw hc).2 (by decide)
  · intro hr
    refine Text.not_mem_intercalate (by decide) fun w hw hc => ?_
    simp only [balanced, Bool.and_eq_true, beq_iff_eq] at hb
    have ho := List.count_pos_iff.mpr (mem_of_mem_tokens hw hc).1
    rw [hb.1.2] at ho
    have hm := mem_of_mem_declaration (List.count_pos_iff.mp ho)
    exact hr (mem_of_mem_splitFrom hpart hm)

end Parameter

namespace ClassDecl

theorem mem_of_anyKeyword? {ws : List Text} {t w r : Text} (h : anyKeyword? ws t = some (w, r)) :
    w ∈ ws := by
  obtain ⟨v, hv, he⟩ := List.exists_of_findSome?_eq_some h
  obtain ⟨s, hs, hw⟩ := Option.map_eq_some_iff.mp he
  obtain ⟨rfl, -⟩ := Prod.mk.inj hw
  exact hv

theorem forall_of_find? {line : Text} {n : Int} {c : ClassDecl} (h : find? line n = some c) :
    c.modifier ∈ accessModifiers ∧ ∀ x ∈ c.name, Text.isWord x = true := by
  obtain ⟨⟨i, head⟩, hl, rfl⟩ := Option.map_eq_some_iff.mp h
  obtain ⟨-, hh, -⟩ := Text.leftmost?_eq_some hl
  obtain ⟨⟨m, r⟩, hm, hh⟩ := Option.bind_eq_some_iff.mp hh
  obtain ⟨r', hk, hh⟩ := Option.bind_eq_some_iff.mp hh
  dsimp only at hh
  split at hh
  · simp at hh
  · obtain rfl := Option.some.inj hh
    exact ⟨mem_of_anyKeyword? hm, fun _ => List.mem_takeWhile_imp⟩

theorem not_mem_of_find? {line : Text} {n : Int} {c : ClassDecl} (h : find? line n = some c) :
    CodePoint.char '\n' ∉ c.modifier ∧ CodePoint.char '\n' ∉ c.name := by
  obtain ⟨hm, hn⟩ := forall_of_find? h
  have hmod : ∀ w ∈ accessModifiers, CodePoint.char '\n' ∉ w := by decide
  exact ⟨hmod _ hm, Text.not_mem_of_forall hn (by decide)⟩

end ClassDecl

namespace PropertyDecl

theorem forall_of_run? {p : CodePoint → Bool} {t w r : Text} (h : run? p t = some (w, r)) :
    ∀ c ∈ w, p c = true := by
  unfold run? at h
  dsimp only at h
  split at h
  · simp at h
  · obtain ⟨rfl, -⟩ := Prod.mk.inj (Option.some.inj h)
    exact fun _ => List.mem_takeWhile_imp

theorem forall_of_find? {line : Text} {f : Found} (h : find? line = some f) :
    (∀ c ∈ f.type, isTypeChar c = true) ∧ ∀ c ∈ f.name, Text.isWord c = true := by
  obtain ⟨⟨i, head⟩, hl, rfl⟩ := Option.map_eq_some_iff.mp h
  obtain ⟨-, hh, -⟩ := Text.leftmost?_eq_some hl
  obtain ⟨⟨m, r⟩, -, hh⟩ := Option.bind_eq_some_iff.mp hh
  obtain ⟨⟨type, r⟩, ht, hh⟩ := Option.bind_eq_some_iff.mp hh
  obtain ⟨r, -, hh⟩ := Option.bind_eq_some_iff.mp hh
  obtain ⟨⟨name, r⟩, hn, hh⟩ := Option.bind_eq_some_iff.mp hh
  obtain ⟨r, -, rfl⟩ := Option.map_eq_some_iff.mp hh
  exact ⟨forall_of_run? ht, forall_of_run? hn⟩

theorem not_mem_of_find? {line : Text} {f : Found} (h : find? line = some f) :
    CodePoint.char '\n' ∉ f.type ∧ CodePoint.char '\n' ∉ f.name := by
  obtain ⟨ht, hn⟩ := forall_of_find? h
  exact ⟨Text.not_mem_of_forall ht (by decide), Text.not_mem_of_forall hn (by decide)⟩

end PropertyDecl

namespace Document

theorem exists_of_lastClass {lines : List Text} {n : Nat} {c : ClassDecl}
    (h : lastClass lines n = some c) : ∃ l ∈ lines, ∃ i, ClassDecl.find? l i = some c := by
  induction n with
  | zero => simp [lastClass] at h
  | succ n ih =>
    unfold lastClass at h
    split at h
    · rename_i b hb
      obtain rfl := Option.some.inj h
      obtain ⟨l, hl, hc⟩ := Option.bind_eq_some_iff.mp hb
      exact ⟨l, List.mem_of_getElem? hl, n, hc⟩
    · exact ih h

/-- A property that is found stands on the line with its number. -/
theorem exists_getElem?_of_mem_propertiesFrom {name : Text} {current : Option ClassDecl} {n : Nat}
    {lines : List Text} {p : PropertyDecl} (h : p ∈ propertiesFrom name current n lines) :
    ∃ i l, p.lineNumber = n + i ∧ lines[i]? = some l ∧
      PropertyDecl.find? l = some ⟨p.modifier, p.type, p.name, p.statement⟩ := by
  induction lines generalizing current n with
  | nil => simp [propertiesFrom] at h
  | cons l r ih =>
    have hr : p ∈ propertiesFrom name ((ClassDecl.find? l n).or current) (n + 1) r →
        ∃ i k, p.lineNumber = n + i ∧ (l :: r)[i]? = some k ∧
          PropertyDecl.find? k = some ⟨p.modifier, p.type, p.name, p.statement⟩ := by
      intro hp
      obtain ⟨i, k, hn, hk, hf⟩ := ih hp
      exact ⟨i + 1, k, by omega, hk, hf⟩
    unfold propertiesFrom at h
    dsimp only at h
    split at h
    · rename_i f owner hf _
      split at h
      · rcases List.mem_cons.mp h with rfl | h
        · exact ⟨0, l, rfl, rfl, hf⟩
        · exact hr h
      · exact hr h
    · exact hr h

theorem exists_of_mem_propertiesFrom {name : Text} {current : Option ClassDecl} {n : Nat}
    {lines : List Text} {p : PropertyDecl} (h : p ∈ propertiesFrom name current n lines) :
    n ≤ p.lineNumber ∧ p.lineNumber < n + lines.length ∧
      ∃ l ∈ lines, ∃ f, PropertyDecl.find? l = some f ∧ f.type = p.type ∧ f.name = p.name := by
  obtain ⟨i, l, hn, hl, hf⟩ := exists_getElem?_of_mem_propertiesFrom h
  have hlt := (List.getElem?_eq_some_iff.mp hl).1
  exact ⟨by omega, by omega, l, List.mem_of_getElem? hl, _, hf, rfl, rfl⟩

end Document

end CSharpActions
