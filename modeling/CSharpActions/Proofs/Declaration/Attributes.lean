import CSharpActions.Proofs.Declaration.Detection
import CSharpActions.Proofs.Declaration.Nesting

/-!
# Attributes in front of a parameter

An attribute that a scan passes over belongs to the first part of a list. There it is skipped,
unless it has an equals sign: a part is cut at its first equals sign before attributes are looked
for, so the bracket of such an attribute stays open, and the first part declares nothing.
-/
namespace CSharpActions.Parameter

open Text (isBlank fields)

variable {body part p r t ws : Text}

/-- The text of an attribute. -/
def attributeText (body : Text) : Text := .char '[' :: (body ++ [.char ']'])

theorem forall_ne_of_not_mem {x : CodePoint} (h : x ∉ t) : ∀ c ∈ t, decide (c ≠ x) = true :=
  fun _ hc => decide_eq_true fun heq => h (heq ▸ hc)

theorem attribute?_eq_none (h : t.head? ≠ some (.char '[')) : attribute? t = none := by
  unfold attribute?
  split
  · simp at h
  · rfl

theorem attribute?_attributeText (h : CodePoint.char ']' ∉ body) (r : Text) :
    attribute? (attributeText body ++ r) = some (r.dropWhile isBlank) := by
  have hdrop : (body ++ .char ']' :: r).dropWhile (· ≠ .char ']') = .char ']' :: r := by
    rw [List.dropWhile_append_of_pos (forall_ne_of_not_mem h),
      List.dropWhile_cons_of_neg (by simp)]
  rw [attributeText, List.cons_append, List.append_assoc, List.singleton_append, attribute?, hdrop]

/-- A bracket that nothing closes begins no attribute. -/
theorem attribute?_of_not_mem (h : CodePoint.char ']' ∉ t) : attribute? t = none := by
  unfold attribute?
  split
  · rename_i r
    have hr := forall_ne_of_not_mem (List.not_mem_of_not_mem_cons h)
    rw [List.dropWhile_eq_nil_iff.mpr hr]
  · rfl

theorem skipAttributes_of_some (h : attribute? t = some r) :
    skipAttributes t = skipAttributes r := by
  conv_lhs => rw [skipAttributes]
  split
  · rename_i s hs
    rw [Option.some.inj (hs.symm.trans h)]
  · rename_i hn
    simp [hn] at h

theorem skipAttributes_of_none (h : attribute? t = none) : skipAttributes t = t := by
  rw [skipAttributes]
  split
  · rename_i s hs
    simp [hs] at h
  · rfl

theorem balanced_blank_append (h : ∀ c ∈ ws, isBlank c = true) (t : Text) :
    balanced (ws ++ t) = balanced t := by
  have hblank : ∀ c, isBlank c = false → ws.count c = 0 :=
    fun c hc => List.count_eq_zero.mpr (Text.not_mem_of_forall h hc)
  simp only [balanced, List.count_append]
  rw [hblank (.char '<') (by decide), hblank (.char '>') (by decide),
    hblank (.char '(') (by decide), hblank (.char ')') (by decide),
    hblank (.char '[') (by decide), hblank (.char ']') (by decide)]
  simp only [Nat.zero_add]

/-- Without attributes, the blanks at the beginning stay, and nothing depends on them. -/
theorem skipAttributes_dropWhile (t : Text) :
    ∃ ws, (∀ c ∈ ws, isBlank c = true) ∧
      dropAttributes t = ws ++ skipAttributes (t.dropWhile isBlank) := by
  rw [dropAttributes]
  split
  · rename_i r hr
    exact ⟨[], by simp, (skipAttributes_of_some hr).symm⟩
  · rename_i hn
    refine ⟨t.takeWhile isBlank, fun _ => List.mem_takeWhile_imp, ?_⟩
    rw [skipAttributes_of_none hn, List.takeWhile_append_dropWhile]

/-- What a part declares depends on the brackets and the words of its declaration. -/
theorem ofPart?_of_declaration_eq (hws : ∀ c ∈ ws, isBlank c = true)
    (h : declaration part = ws ++ declaration p) : ofPart? part = ofPart? p := by
  rw [ofPart?, ofPart?, tokens, tokens, h, balanced_blank_append hws, Text.fields_blank_append hws]

theorem declaration_attributeText (hb : CodePoint.char ']' ∉ body)
    (he : CodePoint.char '=' ∉ body) (p : Text) :
    declaration (attributeText body ++ .char ' ' :: p) =
      skipAttributes ((p.takeWhile (· ≠ .char '=')).dropWhile isBlank) := by
  have hattribute : CodePoint.char '=' ∉ attributeText body := by simp [attributeText, he]
  have hfront : ∀ r, (attributeText body ++ r).dropWhile isBlank = attributeText body ++ r :=
    fun r => List.dropWhile_cons_of_neg (by decide)
  rw [declaration, List.takeWhile_append_of_pos (forall_ne_of_not_mem hattribute),
    List.takeWhile_cons_of_pos (by decide), dropAttributes, hfront,
    attribute?_attributeText hb, List.dropWhile_cons_of_pos (by decide)]

/-- An attribute without an equals sign is skipped. -/
theorem ofPart?_attributeText (hb : CodePoint.char ']' ∉ body) (he : CodePoint.char '=' ∉ body)
    (p : Text) : ofPart? (attributeText body ++ .char ' ' :: p) = ofPart? p := by
  obtain ⟨ws, hws, hdrop⟩ := skipAttributes_dropWhile (p.takeWhile (· ≠ .char '='))
  refine (ofPart?_of_declaration_eq hws ?_).symm
  rw [declaration_attributeText hb he, declaration, hdrop]

/-- An attribute with an equals sign leaves nothing of its part. -/
theorem ofPart?_attributeText_eq_none (hb : CodePoint.char ']' ∉ body)
    (he : CodePoint.char '=' ∈ body) (r : Text) : ofPart? (attributeText body ++ r) = none := by
  obtain ⟨a, b, rfl, ha⟩ := List.eq_append_cons_of_mem he
  rw [List.mem_append, not_or] at hb
  have hopen : CodePoint.char '=' ∉ CodePoint.char '[' :: a := by simp [ha]
  have hcut : (attributeText (a ++ .char '=' :: b) ++ r).takeWhile (· ≠ .char '=') =
      .char '[' :: a := by
    have htext : attributeText (a ++ .char '=' :: b) ++ r =
        (.char '[' :: a) ++ .char '=' :: (b ++ .char ']' :: r) := by
      simp [attributeText]
    rw [htext, List.takeWhile_append_of_pos (forall_ne_of_not_mem hopen),
      List.takeWhile_cons_of_neg (by decide), List.append_nil]
  have hclose : CodePoint.char ']' ∉ CodePoint.char '[' :: a := by simp [hb.1]
  have hdeclaration : declaration (attributeText (a ++ .char '=' :: b) ++ r) = .char '[' :: a := by
    rw [declaration, hcut, dropAttributes, List.dropWhile_cons_of_neg (by decide),
      attribute?_of_not_mem hclose]
  rw [ofPart?, hdeclaration, if_neg]
  simp [balanced, List.count_eq_zero.mpr hclose]

/-- An attribute is passed over if what stands between its brackets is. -/
theorem closed_attributeText (h : Nesting.Closed ⟨1, none⟩ body) :
    Nesting.Closed {} (attributeText body) := by
  have hopen : Nesting.step {} (.char '[') = ⟨1, none⟩ := rfl
  have hclose : Nesting.step ⟨1, none⟩ (.char ']') = {} := rfl
  constructor
  · rw [attributeText, Nesting.intact, hopen, Nesting.intact_append, h.intact, h.foldl_step]
    rfl
  · rw [attributeText, List.foldl_cons, hopen, List.foldl_append, h.foldl_step, List.foldl_cons,
      hclose, List.foldl_nil]

/-- An attribute in front of a list is skipped, or the first part of the list with it. -/
theorem parse_attributeText (hb : CodePoint.char ']' ∉ body)
    (hc : Nesting.Closed ⟨1, none⟩ body) (p : Text) :
    parse (attributeText body ++ .char ' ' :: p) =
      if CodePoint.char '=' ∈ body then (split p).tail.filterMap ofPart? else parse p := by
  have hspace : Nesting.Closed {} [.char ' '] := by decide
  have hsplit : split (attributeText body ++ .char ' ' :: p) =
      (split p).modifyHead (attributeText body ++ .char ' ' :: ·) := by
    have h := ((closed_attributeText hc).append hspace).splitFrom_append p
    simpa [split] using h
  obtain ⟨part, rest, hp⟩ := List.exists_cons_of_ne_nil (splitFrom_ne_nil {} p)
  rw [← split] at hp
  rw [parse, hsplit, hp, List.modifyHead_cons, List.tail_cons]
  split
  · rename_i he
    rw [List.filterMap_cons_none (ofPart?_attributeText_eq_none hb he _)]
  · rename_i he
    rw [parse, hp, List.filterMap_cons, List.filterMap_cons, ofPart?_attributeText hb he]

/-- An attribute changes nothing exactly if it has no equals sign, or stands in front of a part that
declares nothing anyway. -/
theorem attribute_changes_nothing_iff (body p : Text) (hb : CodePoint.char ']' ∉ body)
    (hc : Nesting.Closed ⟨1, none⟩ body) :
    parse (attributeText body ++ .char ' ' :: p) = parse p ↔
      CodePoint.char '=' ∉ body ∨ ∃ part, (split p).head? = some part ∧ ofPart? part = none := by
  obtain ⟨part, rest, hp⟩ := List.exists_cons_of_ne_nil (splitFrom_ne_nil {} p)
  rw [← split] at hp
  rw [parse_attributeText hb hc]
  split
  · rename_i he
    rw [parse, hp, List.tail_cons, List.head?_cons]
    cases hpart : ofPart? part with
    | none => simp [List.filterMap_cons_none hpart, hpart]
    | some q => simp [List.filterMap_cons_some hpart, hpart, he]
  · rename_i he
    simp [he]

/-- An attribute with arguments, one of them in quotes, in front of another attribute. -/
theorem attribute_changes_nothing_iff_with_quotes :
    let body : Text := "Range(1, 2), Label(\"a, (b\")"
    let p : Text := "[A] ref Map<int, T> x = new(1, 2)"
    CodePoint.char ']' ∉ body ∧ Nesting.Closed ⟨1, none⟩ body ∧
      parse p = [⟨"Map<int, T>", "x"⟩] ∧
      (parse (attributeText body ++ .char ' ' :: p) = parse p ↔
        CodePoint.char '=' ∉ body ∨
          ∃ part, (split p).head? = some part ∧ ofPart? part = none) :=
  ⟨by decide, by decide, by decide +kernel,
    attribute_changes_nothing_iff _ _ (by decide) (by decide)⟩

/-- The named argument of an attribute is taken for a default value, and the parameter is lost. -/
theorem attribute_with_named_argument_drops_parameter :
    ∃ (body p : Text) (q : Parameter), CodePoint.char ']' ∉ body ∧
      (∀ c ∈ body, Nesting.isQuote c = false) ∧
      body.count (.char '(') = body.count (.char ')') ∧
      body.count (.char '<') = body.count (.char '>') ∧
      parse p = [q] ∧ parse (attributeText body ++ .char ' ' :: p) = [] :=
  ⟨"Range(Min = 1)", "int x", ⟨"int", "x"⟩, by decide, by decide, by decide, by decide,
    by decide +kernel, by decide +kernel⟩

end CSharpActions.Parameter
