import Mathlib.Data.List.Chain
import CSharpActions.Proofs.Declaration.Parameter
import CSharpActions.Proofs.Document.Line

/-!
# What the detectors find

The detectors of classes and properties look for words without regard to what stands in front of
them. A class is found only where the word class follows a field that ends in a word character, and
a property only where a line has an opening brace and the letter that all modifiers begin with.
Neither of them depends on the indentation.
-/
namespace CSharpActions

namespace Text

variable {c : CodePoint} {t r w bs : Text} {ws : List Text}

theorem exists_of_blanks? (h : blanks? t = some r) :
    ∃ c bs, (∀ x ∈ c :: bs, isBlank x = true) ∧ t = c :: (bs ++ r) := by
  cases t with
  | nil => simp [blanks?] at h
  | cons c t =>
    rw [blanks?] at h
    split at h
    · rename_i hc
      obtain rfl := Option.some.inj h
      refine ⟨c, t.takeWhile isBlank, ?_, by rw [List.takeWhile_append_dropWhile]⟩
      exact List.forall_mem_cons.mpr ⟨hc, fun _ => List.mem_takeWhile_imp⟩
    · simp at h

theorem blanks?_cons (hc : isBlank c = true) (ht : ∀ x, t.head? = some x → isBlank x = false) :
    blanks? (c :: t) = some t := by
  have hdrop := dropWhile_append_of_head? (w := []) (by simp) ht
  rw [blanks?, if_pos hc]
  exact congrArg some hdrop

theorem fields_blank_append (h : ∀ x ∈ bs, isBlank x = true) (t : Text) :
    fields (bs ++ t) = fields t := by
  induction bs with
  | nil => rfl
  | cons b bs ih =>
    obtain ⟨hb, hbs⟩ := List.forall_mem_cons.mp h
    rw [List.cons_append, fields, if_pos hb, ih hbs]

/-- A character that is no blank begins a field, or is put in front of the first one. -/
theorem fields_cons (hc : isBlank c = false) (d : CodePoint) (r : Text) :
    fields (c :: d :: r) = if isBlank d then [c] :: fields (d :: r)
      else (fields (d :: r)).modifyHead (c :: ·) := by
  rw [fields, if_neg (by simp [hc])]
  cases hd : isBlank d with
  | true => rw [List.takeWhile_cons_of_neg (by simp [hd]), List.dropWhile_cons_of_neg (by simp [hd]),
      if_pos rfl]
  | false =>
    rw [List.takeWhile_cons_of_pos (by simp [hd]), List.dropWhile_cons_of_pos (by simp [hd]),
      if_neg Bool.false_ne_true, fields, if_neg (by simp [hd]), List.modifyHead_cons]

/-- What stands in front of a field goes into earlier fields, or into that one. -/
theorem exists_fields_append (h : fields t = w :: ws) (x : Text) :
    ∃ us a, fields (x ++ t) = us ++ (a ++ w) :: ws := by
  induction x with
  | nil => exact ⟨[], [], h⟩
  | cons b x ih =>
    obtain ⟨us, a, hu⟩ := ih
    obtain ⟨d, s, hds⟩ : ∃ d s, x ++ t = d :: s := by
      refine List.exists_cons_of_ne_nil fun hnil => ?_
      rw [hnil, fields] at hu
      simp at hu
    rw [List.cons_append]
    rw [hds] at hu ⊢
    cases hb : isBlank b with
    | true => exact ⟨us, a, by rw [fields, if_pos hb, hu]⟩
    | false =>
      rw [fields_cons hb, hu]
      split
      · exact ⟨[b] :: us, a, rfl⟩
      · cases us with
        | nil => exact ⟨[], b :: a, rfl⟩
        | cons u us => exact ⟨(b :: u) :: us, a, rfl⟩

theorem leftmost?_of_some {α : Type} {f : Text → Option α} {a : α} (h : f t = some a) :
    leftmost? f t = some (0, a) := by
  cases t with
  | nil => rw [leftmost?, h, Option.map_some]
  | cons c t => rw [leftmost?, h]

/-- What is not found at the characters of the first text is found in the second. -/
theorem leftmost?_append {α : Type} {f : Text → Option α} {s : Text}
    (h : ∀ x ∈ s, ∀ r, f (x :: r) = none) (t : Text) :
    leftmost? f (s ++ t) = (leftmost? f t).map fun (i, a) => (s.length + i, a) := by
  induction s with
  | nil => simp
  | cons b s ih =>
    obtain ⟨hb, hs⟩ := List.forall_mem_cons.mp h
    rw [List.cons_append, leftmost?, hb, ih hs, Option.map_map]
    congr 1
    funext ⟨i, a⟩
    simp [Nat.add_right_comm]

end Text

namespace ClassDecl

open Text (fields isBlank isWord)

variable {t r w line : Text} {ws : List Text} {n : Int}

theorem exists_of_keyword? (h : keyword? w t = some r) :
    ∃ c bs, (∀ x ∈ c :: bs, isBlank x = true) ∧ t = w ++ c :: (bs ++ r) := by
  obtain ⟨s, hs, hr⟩ := Option.bind_eq_some_iff.mp h
  obtain ⟨c, bs, hb, rfl⟩ := Text.exists_of_blanks? hr
  exact ⟨c, bs, hb, Text.after?_eq_some_iff.mp hs⟩

theorem keyword?_of_anyKeyword? (h : anyKeyword? ws t = some (w, r)) : keyword? w t = some r := by
  obtain ⟨v, -, he⟩ := List.exists_of_findSome?_eq_some h
  obtain ⟨s, hs, hw⟩ := Option.map_eq_some_iff.mp he
  obtain ⟨rfl, rfl⟩ := Prod.mk.inj hw
  exact hs

theorem fields_of_keyword? (hne : w ≠ []) (hw : ∀ c ∈ w, isBlank c = false)
    (h : keyword? w t = some r) : fields t = w :: fields r := by
  obtain ⟨c, bs, hb, rfl⟩ := exists_of_keyword? h
  rw [Text.fields_append hne hw (by simpa using (hb c List.mem_cons_self)), ← List.cons_append,
    Text.fields_blank_append hb]

/-- The words that are looked for by their letters. -/
theorem forall_of_mem_modifiers (h : w ∈ accessModifiers ++ furtherModifiers) :
    w ≠ [] ∧ ∀ c ∈ w, isBlank c = false ∧ isWord c = true := by
  have hall : ∀ w ∈ accessModifiers ++ furtherModifiers,
      w ≠ [] ∧ ∀ c ∈ w, isBlank c = false ∧ isWord c = true := by decide +kernel
  exact hall w h

theorem fields_of_anyKeyword? (hws : ws ⊆ accessModifiers ++ furtherModifiers)
    (h : anyKeyword? ws t = some (w, r)) : fields t = w :: fields r := by
  obtain ⟨hne, hw⟩ := forall_of_mem_modifiers (hws (mem_of_anyKeyword? h))
  exact fields_of_keyword? hne (fun c hc => (hw c hc).1) (keyword?_of_anyKeyword? h)

theorem exists_fields_skipModifiers (t : Text) :
    ∃ us, fields t = us ++ fields (skipModifiers t) ∧ ∀ u ∈ us, u ∈ furtherModifiers := by
  fun_induction skipModifiers t with
  | case1 t w r h ih =>
    obtain ⟨us, hu, hmem⟩ := ih
    refine ⟨w :: us, ?_, List.forall_mem_cons.mpr ⟨mem_of_anyKeyword? h, hmem⟩⟩
    rw [fields_of_anyKeyword? (List.subset_append_right _ _) h, hu, List.cons_append]
  | case2 t h => exact ⟨[], rfl, by simp⟩

/-- Where a class is declared, the word class stands behind modifiers. -/
theorem exists_fields_of_head? {head : Head} (h : head? t = some head) :
    ∃ m us rest, fields t = m :: (us ++ "class".text :: rest) ∧
      ∀ u ∈ m :: us, u ∈ accessModifiers ++ furtherModifiers := by
  obtain ⟨⟨m, r⟩, hm, h⟩ := Option.bind_eq_some_iff.mp h
  obtain ⟨s, hs, -⟩ := Option.bind_eq_some_iff.mp h
  obtain ⟨us, hu, hmem⟩ := exists_fields_skipModifiers r
  refine ⟨m, us, fields s, ?_, List.forall_mem_cons.mpr ⟨?_, fun u hu => ?_⟩⟩
  · rw [fields_of_anyKeyword? (List.subset_append_left _ _) hm, hu,
      fields_of_keyword? (by decide) (by decide) hs]
  · exact List.mem_append_left _ (mem_of_anyKeyword? hm)
  · exact List.mem_append_right _ (hmem u hu)

/-- Two fields between which no declaration of a class goes on. -/
def Parts (a b : Text) : Prop :=
  b = "class".text → ∀ c, a.getLast? = some c → isWord c = false

/-- A line whose fields keep the word class apart from modifiers declares no class. -/
theorem find?_eq_none (h : (fields line).IsChain Parts) (n : Int) : find? line n = none := by
  cases hf : find? line n with
  | none => rfl
  | some decl =>
    obtain ⟨⟨i, head⟩, hl, -⟩ := Option.map_eq_some_iff.mp hf
    obtain ⟨-, hh, -⟩ := Text.leftmost?_eq_some hl
    obtain ⟨m, us, rest, hfields, hmem⟩ := exists_fields_of_head? hh
    obtain ⟨vs, a, hline⟩ := Text.exists_fields_append hfields (line.take i)
    rw [List.take_append_drop] at hline
    obtain ⟨u, hu, xs, b, hlast⟩ : ∃ u ∈ m :: us, ∃ xs b,
        vs ++ (a ++ m) :: us = xs ++ [b ++ u] := by
      rcases List.eq_nil_or_concat' us with rfl | ⟨us, u, rfl⟩
      · exact ⟨m, by simp, vs, a, rfl⟩
      · exact ⟨u, by simp, vs ++ (a ++ m) :: us, [], by simp⟩
    have hsplit : fields line = xs ++ (b ++ u) :: "class".text :: rest := by
      rw [hline, ← List.cons_append, ← List.append_assoc, hlast, List.append_assoc]
      rfl
    rw [hsplit, List.isChain_append_cons_cons] at h
    obtain ⟨hne, hword⟩ := forall_of_mem_modifiers (hmem u hu)
    have hend := h.2.1 rfl (u.getLast hne)
      (by rw [List.getLast?_append_of_ne_nil _ hne, List.getLast?_eq_some_getLast])
    rw [(hword _ (List.getLast_mem hne)).2] at hend
    exact absurd hend (by decide)

theorem anyKeyword?_of_isBlank {c : CodePoint} (hc : isBlank c = true)
    (hws : ws ⊆ accessModifiers ++ furtherModifiers) (r : Text) :
    anyKeyword? ws (c :: r) = none := by
  cases h : anyKeyword? ws (c :: r) with
  | none => rfl
  | some found =>
    obtain ⟨hne, hw⟩ := forall_of_mem_modifiers (hws (mem_of_anyKeyword? h))
    obtain ⟨x, v, hx⟩ := List.exists_cons_of_ne_nil hne
    obtain ⟨b, bs, -, ht⟩ := exists_of_keyword? (keyword?_of_anyKeyword? h)
    rw [hx, List.cons_append] at ht
    rw [(List.cons.inj ht).1, (hw x (hx ▸ List.mem_cons_self)).1] at hc
    exact absurd hc (by decide)

/-- No declaration begins with a blank. -/
theorem head?_of_isBlank {c : CodePoint} (hc : isBlank c = true) (r : Text) :
    head? (c :: r) = none := by
  rw [head?, anyKeyword?_of_isBlank hc (List.subset_append_left _ _), Option.bind_none]

theorem find?_blank_append {s : Text} (hs : ∀ c ∈ s, isBlank c = true) (line : Text) (n : Int) :
    find? (s ++ line) n = find? line n := by
  rw [find?, Text.leftmost?_append fun c hc => head?_of_isBlank (hs c hc), Option.map_map, find?]
  congr 1
  funext ⟨i, head⟩
  simp [List.drop_append, Nat.add_sub_add_left, List.drop_eq_nil_of_le]

theorem find?_dropWhile (line : Text) (n : Int) :
    find? (line.dropWhile Document.isIndent) n = find? line n := by
  have hindent : ∀ c ∈ Document.indentOf line, isBlank c = true :=
    fun _ hc => Document.isBlank_of_isIndent (Document.isIndent_of_mem_indentOf hc)
  have h := find?_blank_append hindent (line.dropWhile Document.isIndent) n
  rw [Document.indentOf_append_dropWhile] at h
  exact h.symm

end ClassDecl

namespace PropertyDecl

variable {t r w line : Text}

theorem exists_of_run? {p : CodePoint → Bool} (h : run? p t = some (w, r)) :
    w ≠ [] ∧ r <:+ t := by
  unfold run? at h
  dsimp only at h
  split at h
  · simp at h
  · rename_i hne
    obtain ⟨rfl, rfl⟩ := Prod.mk.inj (Option.some.inj h)
    exact ⟨by simpa using hne, List.dropWhile_suffix _⟩

theorem run?_append {p : CodePoint → Bool} (hne : w ≠ []) (hw : ∀ c ∈ w, p c = true)
    (ht : ∀ c, t.head? = some c → p c = false) : run? p (w ++ t) = some (w, t) := by
  rw [run?, Text.takeWhile_append_of_head? hw ht, Text.dropWhile_append_of_head? hw ht,
    if_neg (by simpa using hne)]

theorem exists_of_head? {head : Head} (h : head? t = some head) :
    ∃ r, t = head.modifier ++ r ∧ head.modifier ∈ modifiers ∧ CodePoint.char '\x7b' ∈ r ∧
      head.type ≠ [] ∧ head.name ≠ [] := by
  obtain ⟨⟨m, r₁⟩, hm, h⟩ := Option.bind_eq_some_iff.mp h
  obtain ⟨⟨type, r₂⟩, ht, h⟩ := Option.bind_eq_some_iff.mp h
  obtain ⟨r₃, hb, h⟩ := Option.bind_eq_some_iff.mp h
  obtain ⟨⟨name, r₄⟩, hn, h⟩ := Option.bind_eq_some_iff.mp h
  obtain ⟨r₅, ha, rfl⟩ := Option.map_eq_some_iff.mp h
  obtain ⟨r₆, hs, -⟩ := Option.bind_eq_some_iff.mp ha
  obtain ⟨c, bs, -, rfl⟩ := ClassDecl.exists_of_keyword? (ClassDecl.keyword?_of_anyKeyword? hm)
  obtain ⟨htype, ht⟩ := exists_of_run? ht
  obtain ⟨hname, hn⟩ := exists_of_run? hn
  obtain ⟨b, cs, -, rfl⟩ := Text.exists_of_blanks? hb
  have hbrace : CodePoint.char '\x7b' ∈ r₄ := by
    have hdrop := Text.after?_eq_some_iff.mp hs
    refine (List.dropWhile_suffix Text.isBlank).subset ?_
    rw [hdrop]
    exact List.mem_cons_self
  refine ⟨c :: (bs ++ r₁), rfl, ClassDecl.mem_of_anyKeyword? hm, ?_, htype, hname⟩
  have hsub := ht.subset (List.mem_cons_of_mem b (List.mem_append_right cs (hn.subset hbrace)))
  exact List.mem_cons_of_mem c (List.mem_append_right bs hsub)

theorem exists_of_find? {f : Found} (h : find? line = some f) :
    CodePoint.char 'p' ∈ line ∧ CodePoint.char '\x7b' ∈ line ∧ f.type ≠ [] ∧ f.name ≠ [] := by
  obtain ⟨⟨i, head⟩, hl, rfl⟩ := Option.map_eq_some_iff.mp h
  obtain ⟨-, hh, -⟩ := Text.leftmost?_eq_some hl
  obtain ⟨r, hr, hm, hbrace, htype, hname⟩ := exists_of_head? hh
  have hall : ∀ m ∈ modifiers, CodePoint.char 'p' ∈ m := by decide
  have hsub : line.drop i ⊆ line := (List.drop_suffix i line).subset
  rw [hr] at hsub
  exact ⟨hsub (List.mem_append_left _ (hall _ hm)), hsub (List.mem_append_right _ hbrace), htype,
    hname⟩

theorem head?_of_isBlank {c : CodePoint} (hc : Text.isBlank c = true) (r : Text) :
    head? (c :: r) = none := by
  have hsub : modifiers ⊆ ClassDecl.accessModifiers ++ ClassDecl.furtherModifiers := by decide
  rw [head?, ClassDecl.anyKeyword?_of_isBlank hc hsub, Option.bind_none]

theorem find?_blank_append {s : Text} (hs : ∀ c ∈ s, Text.isBlank c = true) (line : Text) :
    find? (s ++ line) = find? line := by
  rw [find?, Text.leftmost?_append fun c hc => head?_of_isBlank (hs c hc), Option.map_map, find?]
  congr 1
  funext ⟨i, head⟩
  simp [List.drop_append, Nat.add_sub_add_left, List.drop_eq_nil_of_le]

theorem find?_dropWhile (line : Text) : find? (line.dropWhile Document.isIndent) = find? line := by
  have hindent : ∀ c ∈ Document.indentOf line, Text.isBlank c = true :=
    fun _ hc => Document.isBlank_of_isIndent (Document.isIndent_of_mem_indentOf hc)
  have h := find?_blank_append hindent (line.dropWhile Document.isIndent)
  rw [Document.indentOf_append_dropWhile] at h
  exact h.symm

end PropertyDecl

/-- Nothing is declared on a line. -/
def Undetected (line : Text) : Prop :=
  (∀ n, ClassDecl.find? line n = none) ∧ PropertyDecl.find? line = none

end CSharpActions
