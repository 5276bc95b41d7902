import CSharpActions.Proofs.Declaration.Names
import CSharpActions.Proofs.Document.Word

/-!
# Where a parameter is declared

A parameter is declared by one part of a list. Its type is what stands before its name there,
without attributes and modifiers, and the type that a name has in a list is that of the first part
which declares it.
-/
namespace CSharpActions

namespace Text

theorem isWord_of_isBlank {c : CodePoint} (h : isBlank c = true) : isWord c = false := by
  obtain ⟨r, hr, hlow, hhigh⟩ := Ranges.exists_of_contains h
  have hall : ∀ r ∈ blankRanges, ∀ n ∈ List.range' r.1 (r.2 + 1 - r.1),
      wordRanges.contains n = false := by
    decide +kernel
  exact hall r hr c.toNat (List.mem_range'_1.mpr ⟨hlow, by omega⟩)

theorem isBlank_of_isWord {c : CodePoint} (h : isWord c = true) : isBlank c = false :=
  Bool.eq_false_iff.mpr fun hb => by simp [isWord_of_isBlank hb] at h

theorem ne_nil_of_mem_fields {t w : Text} (h : w ∈ fields t) : w ≠ [] := by
  fun_induction fields t with
  | case1 => simp at h
  | case2 c r hc ih => exact ih h
  | case3 c r hc ih =>
    rcases List.mem_cons.mp h with rfl | h
    · simp
    · exact ih h

section Run

variable {p : CodePoint → Bool} {w t : Text}

/-- A run of characters is taken up to a text that does not go on with it. -/
theorem takeWhile_append_of_head? (hw : ∀ c ∈ w, p c = true)
    (ht : ∀ c, t.head? = some c → p c = false) : (w ++ t).takeWhile p = w := by
  rw [List.takeWhile_append_of_pos hw]
  cases t with
  | nil => simp
  | cons c t => rw [List.takeWhile_cons_of_neg (by simp [ht c rfl]), List.append_nil]

theorem dropWhile_append_of_head? (hw : ∀ c ∈ w, p c = true)
    (ht : ∀ c, t.head? = some c → p c = false) : (w ++ t).dropWhile p = t := by
  rw [List.dropWhile_append_of_pos hw]
  cases t with
  | nil => rfl
  | cons c t => rw [List.dropWhile_cons_of_neg (by simp [ht c rfl])]

end Run

theorem fields_append {w t : Text} (hne : w ≠ []) (hw : ∀ c ∈ w, isBlank c = false)
    (ht : ∀ c, t.head? = some c → isBlank c = true) : fields (w ++ t) = w :: fields t := by
  obtain ⟨c, w, rfl⟩ := List.exists_cons_of_ne_nil hne
  obtain ⟨hc, hw⟩ := List.forall_mem_cons.mp hw
  have hpos : ∀ x ∈ w, (!isBlank x) = true := fun x hx => by rw [hw x hx]; rfl
  have hneg : ∀ x, t.head? = some x → (!isBlank x) = false := fun x hx => by rw [ht x hx]; rfl
  rw [List.cons_append, fields, if_neg (by simp [hc]), takeWhile_append_of_head? hpos hneg,
    dropWhile_append_of_head? hpos hneg]

theorem fields_append_cons {w : Text} {c : CodePoint} (hne : w ≠ [])
    (hw : ∀ x ∈ w, isBlank x = false) (hc : isBlank c = true) (t : Text) :
    fields (w ++ c :: t) = w :: fields t := by
  rw [fields_append hne hw (by simpa using hc), fields, if_pos hc]

theorem fields_of_word {w : Text} (hne : w ≠ []) (hw : ∀ x ∈ w, isBlank x = false) :
    fields w = [w] := by
  have h := fields_append hne hw (t := []) (by simp)
  rwa [List.append_nil, fields] at h

/-- Where a field stands in a text: blanks or the ends of the text are on both of its sides. -/
theorem exists_of_fields_eq {t w : Text} {us vs : List Text} (h : fields t = us ++ w :: vs) :
    ∃ x y, t = x ++ (w ++ y) ∧ fields x = us ∧ fields y = vs ∧
      (∀ c, x.getLast? = some c → isBlank c = true) ∧ ∀ c, y.head? = some c → isBlank c = true := by
  obtain ⟨hne, hw⟩ : w ≠ [] ∧ ∀ c ∈ w, isBlank c = false := by
    have hmem : w ∈ fields t := by simp [h]
    exact ⟨ne_nil_of_mem_fields hmem, fun c hc => (mem_of_mem_fields hmem hc).2⟩
  fun_induction fields t generalizing us with
  | case1 => simp at h
  | case2 c r hc ih =>
    obtain ⟨x, y, rfl, hx, hy, hleft, hright⟩ := ih h
    refine ⟨c :: x, y, rfl, by rw [fields, if_pos hc, hx], hy, ?_, hright⟩
    intro b hb
    cases x with
    | nil => rwa [← Option.some.inj (hb : some c = some b)]
    | cons a x => exact hleft b (by rwa [List.getLast?_cons_cons] at hb)
  | case3 c r hc ih =>
    have hstop : ∀ b, (r.dropWhile (!isBlank ·)).head? = some b → isBlank b = true := by
      intro b hb
      simpa using false_of_head?_dropWhile hb
    have hword : ∀ b ∈ c :: r.takeWhile (!isBlank ·), isBlank b = false := by
      refine List.forall_mem_cons.mpr ⟨by simpa using hc, fun b hb => ?_⟩
      simpa using List.mem_takeWhile_imp hb
    have hcut : c :: r = (c :: r.takeWhile (!isBlank ·)) ++ r.dropWhile (!isBlank ·) := by
      rw [List.cons_append, List.takeWhile_append_dropWhile]
    rcases List.cons_eq_append_iff.mp h with ⟨rfl, heq⟩ | ⟨us, rfl, hrest⟩
    · obtain ⟨rfl, rfl⟩ := List.cons.inj heq
      exact ⟨[], _, hcut, by simp [fields], rfl, by simp, hstop⟩
    · obtain ⟨x, y, hr, hx, hy, hleft, hright⟩ := ih hrest
      have hxne : x ≠ [] := by
        -- a field does not begin with a blank
        rintro rfl
        obtain ⟨b, w, rfl⟩ := List.exists_cons_of_ne_nil hne
        have hb := hw b List.mem_cons_self
        rw [hstop b (by rw [hr]; rfl)] at hb
        exact absurd hb (by decide)
      have hhead : ∀ b, x.head? = some b → isBlank b = true :=
        fun b hb => hstop b (by simp [hr, hb])
      refine ⟨(c :: r.takeWhile (!isBlank ·)) ++ x, y, ?_, ?_, hy, ?_, hright⟩
      · rw [hcut, hr, List.append_assoc]
      · rw [fields_append (by simp) hword hhead, hx]
      · intro b hb
        exact hleft b (by rwa [List.getLast?_append_of_ne_nil _ hxne] at hb)

end Text

namespace Parameter

variable {raw part x y : Text} {q : Parameter}

/-- A part of a list declares a parameter, with its name between `x` and `y`: the type stands before
it, behind attributes, and nothing but modifiers and a default value behind it. -/
structure Declares (part : Text) (q : Parameter) (x y : Text) : Prop where
  part_eq : part = x ++ (q.name ++ y)
  ofPart?_eq : ofPart? part = some q
  written : ∃ attributes type rest, x = attributes ++ type ∧
    y = rest ++ part.dropWhile (· ≠ .char '=') ∧ declaration part = type ++ (q.name ++ rest) ∧
    q.type = List.intercalate [.char ' ']
      ((Text.fields type).filter fun w => !modifiers.contains w) ∧
    ∀ w ∈ Text.fields rest, w ∈ modifiers
  left : ∃ c, x.getLast? = some c ∧ Text.isBlank c = true
  right : ∀ c, y.head? = some c → Text.isBlank c = true ∨ c = .char '='

/-- The first part of a list that declares a name; the name stands between `x` and `y`. -/
def IsFirst (raw : Text) (q : Parameter) (x y : Text) : Prop :=
  ∃ pre part post u v, split raw = pre ++ part :: post ∧
    (∀ r ∈ pre.filterMap ofPart?, r.name ≠ q.name) ∧ Declares part q u v ∧
    x = pre.flatMap (· ++ [.char ',']) ++ u ∧ y = v ++ post.flatMap (.char ',' :: ·)

theorem exists_of_filter_eq {p : Text → Bool} {l ws : List Text} {w : Text}
    (h : l.filter p = ws ++ [w]) :
    ∃ us vs, l = us ++ w :: vs ∧ us.filter p = ws ∧ vs.filter p = [] := by
  obtain ⟨l₁, l₂, rfl, hws, hw⟩ := List.filter_eq_append_iff.mp h
  obtain ⟨m₁, m₂, rfl, hno, -, hrest⟩ := List.filter_eq_cons_iff.mp hw
  refine ⟨l₁ ++ m₁, m₂, by simp, ?_, hrest⟩
  rw [List.filter_append, hws, List.filter_eq_nil_iff.mpr hno, List.append_nil]

theorem exists_declares (h : ofPart? part = some q) : ∃ x y, Declares part q x y := by
  obtain ⟨ws, -, hne, htokens, htype⟩ := exists_tokens_eq h
  obtain ⟨us, vs, hfields, hus, hvs⟩ := exists_of_filter_eq htokens
  obtain ⟨type, rest, hdecl, rfl, rfl, hleft, hright⟩ := Text.exists_of_fields_eq hfields
  obtain ⟨attributes, hpart⟩ := declaration_suffix part
  have htne : type ≠ [] := by
    rintro rfl
    exact hne (by rw [← hus]; simp [Text.fields])
  have hlast := List.getLast?_eq_some_getLast htne
  have hmod : ∀ w ∈ Text.fields rest, w ∈ modifiers := by
    simpa using List.filter_eq_nil_iff.mp hvs
  refine ⟨attributes ++ type, rest ++ part.dropWhile (· ≠ .char '='), ?_, h,
    ⟨attributes, type, rest, rfl, rfl, hdecl, by rw [htype, hus], hmod⟩, ?_, ?_⟩
  · conv_lhs => rw [← List.takeWhile_append_dropWhile (p := (· ≠ .char '=')) (l := part), ← hpart,
      hdecl]
    simp only [List.append_assoc]
  · exact ⟨_, by rw [List.getLast?_append_of_ne_nil _ htne, hlast], hleft _ hlast⟩
  · intro c hc
    rw [List.head?_append] at hc
    cases hr : rest.head? with
    | some b =>
      rw [hr] at hc
      exact Or.inl (hright c (hr.trans hc))
    | none =>
      rw [hr, Option.none_or] at hc
      exact Or.inr (by simpa using Text.false_of_head?_dropWhile hc)

theorem intercalate_append_cons (sep : Text) (pre post : List Text) :
    List.intercalate sep (pre ++ part :: post) =
      pre.flatMap (· ++ sep) ++ (part ++ post.flatMap (sep ++ ·)) := by
  induction pre with
  | nil =>
    rw [List.nil_append, List.flatMap_nil, List.nil_append]
    induction post generalizing part with
    | nil => simp
    | cons r post ih =>
      rw [List.intercalate_cons_cons, ih, List.flatMap_cons]
      simp only [List.append_assoc]
  | cons r pre ih =>
    rw [List.cons_append, List.intercalate_cons_of_ne_nil (by simp), ih, List.flatMap_cons]
    simp only [List.append_assoc]

theorem IsFirst.raw_eq (h : IsFirst raw q x y) : raw = x ++ (q.name ++ y) := by
  obtain ⟨pre, part, post, u, v, hsplit, -, hdecl, rfl, rfl⟩ := h
  have hraw := intercalate_splitFrom {} raw
  rw [← split, hsplit, intercalate_append_cons, hdecl.part_eq] at hraw
  rw [← hraw]
  simp only [List.append_assoc, List.singleton_append]

/-- A name that is a word is a whole one in its list. -/
theorem IsFirst.isWordIn (h : IsFirst raw q x y) (hne : q.name ≠ [])
    (hword : ∀ c ∈ q.name, Text.isWord c = true) {r : Text}
    (hr : ∀ c, r.head? = some c → Text.isWord c = false) (l : Text) :
    Text.IsWordIn (l ++ x) q.name (y ++ r) := by
  obtain ⟨pre, part, post, u, v, -, -, hdecl, rfl, rfl⟩ := h
  obtain ⟨b, hb, hblank⟩ := hdecl.left
  have hune : u ≠ [] := by
    rintro rfl
    simp at hb
  refine ⟨hne, hword, ?_, ?_⟩
  · intro c hc
    rw [← List.append_assoc, List.getLast?_append_of_ne_nil _ hune, hb] at hc
    rw [← Option.some.inj hc]
    exact Text.isWord_of_isBlank hblank
  · intro c hc
    rw [List.append_assoc, List.head?_append] at hc
    cases hv : v.head? with
    | some a =>
      rw [hv] at hc
      rcases hdecl.right c (hv.trans hc) with h | rfl
      · exact Text.isWord_of_isBlank h
      · decide +kernel
    | none =>
      rw [hv, Option.none_or] at hc
      cases post with
      | nil => exact hr c hc
      | cons p post =>
        rw [← Option.some.inj (hc : some (.char ',') = some c)]
        decide +kernel

/-- The type of a name is that of the first part which declares the name. -/
theorem typeOf?_eq_some_iff {name type : Text} :
    typeOf? raw name = some type ↔ ∃ x y, IsFirst raw ⟨type, name⟩ x y := by
  constructor
  · intro h
    obtain ⟨q, hfind, rfl⟩ := Option.map_eq_some_iff.mp h
    obtain ⟨hname, as, bs, hparse, has⟩ := List.find?_eq_some_iff_append.mp hfind
    obtain rfl : q.name = name := of_decide_eq_true hname
    obtain ⟨l, m, hsplit, rfl, hm⟩ := List.filterMap_eq_append_iff.mp hparse
    obtain ⟨pre, part, post, rfl, hnone, hpart, -⟩ := List.filterMap_eq_cons_iff.mp hm
    obtain ⟨u, v, hdecl⟩ := exists_declares hpart
    refine ⟨_, _, l ++ pre, part, post, u, v, by simp [hsplit], ?_, hdecl, rfl, rfl⟩
    intro r hr
    rw [List.filterMap_append, List.filterMap_eq_nil_iff.mpr hnone, List.append_nil] at hr
    simpa using has r hr
  · rintro ⟨x, y, pre, part, post, u, v, hsplit, hno, hdecl, -, -⟩
    have hparse : parse raw = pre.filterMap ofPart? ++ ⟨type, name⟩ :: post.filterMap ofPart? := by
      rw [parse, hsplit, List.filterMap_append, List.filterMap_cons_some hdecl.ofPart?_eq]
    have hfind : (parse raw).find? (fun r => r.name = name) = some ⟨type, name⟩ := by
      refine List.find?_eq_some_iff_append.mpr ⟨decide_eq_true rfl, _, _, hparse, ?_⟩
      intro r hr
      simpa using hno r hr
    rw [typeOf?, hfind]
    rfl

end Parameter

end CSharpActions
