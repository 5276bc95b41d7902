import CSharpActions.Proofs.Codegen.Constructor
import CSharpActions.Proofs.Declaration.Readers
import CSharpActions.Proofs.Text.Leftmost

/-!
# The grammars of declarations

A line declares a class or an automatic property exactly if a stretch of it belongs to the grammar
of such declarations. What is found stands at the first place where such a stretch begins, and the
grammar leaves no choice there but where the name of a class ends.
-/
namespace CSharpActions

open Text (IsRun Ends isBlank isWord)

/-- A detector finds its statement between what is in front of it and the rest. -/
theorem Text.take_drop_eq {line s r : Text} {i : Nat} (h : line.drop i = s ++ r) :
    (line.drop i).take (line.length - i - r.length) = s := by
  have hlen := congrArg List.length h
  rw [List.length_drop, List.length_append] at hlen
  rw [h, hlen, Nat.add_sub_cancel, List.take_left]

namespace ClassDecl

/-- The text declares a class: an access modifier, blanks, further modifiers each with blanks after
it, the word class, blanks, and the name of the class. -/
def IsDeclaration (text modifier name : Text) : Prop :=
  ∃ gap ms gap', modifier ∈ accessModifiers ∧ IsRun isBlank gap ∧ Modifiers ms ∧
    IsRun isBlank gap' ∧ IsRun isWord name ∧
    text = modifier ++ (gap ++ (ms ++ ("class".text ++ (gap' ++ name))))

/-- The text begins with a declaration of a class. -/
def Begins (t : Text) : Prop := ∃ s, (∃ m w, IsDeclaration s m w) ∧ s <+: t

/-- The class is declared at place `i` of the line, its name cannot go on, and no declaration
begins before. -/
structure IsFirstAt (line : Text) (i : Nat) (c : ClassDecl) : Prop where
  declares : IsDeclaration c.statement c.modifier c.name
  text_eq : ∃ r, line.drop i = c.statement ++ r ∧ Ends isWord r
  least : ∀ j < i, ¬Begins (line.drop j)

variable {t s m w line : Text} {h : Head}

theorem anyKeyword?_class (r : Text) (hr : Ends isBlank r) {gap : Text} (hgap : IsRun isBlank gap) :
    anyKeyword? furtherModifiers ("class".text ++ (gap ++ r)) = none := by
  cases hany : anyKeyword? furtherModifiers ("class".text ++ (gap ++ r)) with
  | none => rfl
  | some found =>
    -- the keyword there is the word class, which is no modifier
    obtain ⟨hw, hk⟩ := (anyKeyword?_eq_some_iff (List.subset_append_right _ _)).mp hany
    have hblank : ∀ w ∈ furtherModifiers, ∀ c ∈ w, isBlank c = false := by decide
    have hclass := eq_of_keyword? (by decide) (hblank _ hw)
      (keyword?_eq_some_iff.mpr ⟨gap, hgap, rfl, hr⟩) hk
    rw [← hclass] at hw
    exact absurd hw (by decide)

theorem head?_eq_some_iff : head? t = some h ↔
    ∃ s, IsDeclaration s h.modifier h.name ∧ t = s ++ h.rest ∧ Ends isWord h.rest := by
  constructor
  · intro hh
    obtain ⟨⟨m, r⟩, hm, hh⟩ := Option.bind_eq_some_iff.mp hh
    obtain ⟨r', hk, hh⟩ := Option.bind_eq_some_iff.mp hh
    dsimp only at hh
    split at hh
    · simp at hh
    · rename_i hne
      obtain rfl := Option.some.inj hh
      obtain ⟨hmem, hm⟩ := (anyKeyword?_eq_some_iff (List.subset_append_left _ _)).mp hm
      obtain ⟨gap, hgap, rfl, -⟩ := keyword?_eq_some_iff.mp hm
      obtain ⟨ms, hms, hr⟩ := exists_modifiers r
      obtain ⟨gap', hgap', hr', -⟩ := keyword?_eq_some_iff.mp hk
      have hname : IsRun isWord (r'.takeWhile isWord) :=
        ⟨by simpa using hne, fun _ => List.mem_takeWhile_imp⟩
      refine ⟨_, ⟨gap, ms, gap', hmem, hgap, hms, hgap', hname, rfl⟩, ?_,
        Text.ends_dropWhile isWord r'⟩
      conv_lhs => rw [hr, hr', ← List.takeWhile_append_dropWhile (p := isWord) (l := r')]
      simp only [List.append_assoc]
  · rintro ⟨s, ⟨gap, ms, gap', hmem, hgap, hms, hgap', hname, rfl⟩, rfl, hrest⟩
    have hends : Ends isBlank (h.name ++ h.rest) := hname.ends (fun _ => Text.isBlank_of_isWord) _
    have hskip := skipModifiers_append hms (r := "class".text ++ (gap' ++ (h.name ++ h.rest)))
      (Text.ends_cons.mpr (by decide)) (anyKeyword?_class _ hends hgap')
    have hany : anyKeyword? accessModifiers
        (h.modifier ++ (gap ++ (ms ++ ("class".text ++ (gap' ++ (h.name ++ h.rest)))))) =
          some (h.modifier, ms ++ ("class".text ++ (gap' ++ (h.name ++ h.rest)))) :=
      (anyKeyword?_eq_some_iff (List.subset_append_left _ _)).mpr ⟨hmem,
        keyword?_eq_some_iff.mpr ⟨gap, hgap, rfl, hms.ends (Text.ends_cons.mpr (by decide))⟩⟩
    have hclass : keyword? "class" ("class".text ++ (gap' ++ (h.name ++ h.rest))) =
        some (h.name ++ h.rest) :=
      keyword?_eq_some_iff.mpr ⟨gap', hgap', rfl, hends⟩
    simp only [List.append_assoc]
    rw [head?, hany, Option.bind_some]
    dsimp only
    rw [hskip, hclass, Option.bind_some, Text.takeWhile_append_of_head? hname.2 hrest,
      Text.dropWhile_append_of_head? hname.2 hrest, if_neg (by simpa using hname.1)]

/-- A declaration can be read with a longer name, but not otherwise. -/
theorem IsDeclaration.exists_head? (hs : IsDeclaration s m w) (r : Text) :
    ∃ h, head? (s ++ r) = some h ∧ h.modifier = m ∧ w <+: h.name := by
  obtain ⟨gap, ms, gap', hmem, hgap, hms, hgap', hw, rfl⟩ := hs
  refine ⟨⟨m, w ++ r.takeWhile isWord, r.dropWhile isWord⟩, head?_eq_some_iff.mpr ?_, rfl,
    List.prefix_append _ _⟩
  have hname : IsRun isWord (w ++ r.takeWhile isWord) :=
    ⟨by simp [hw.1], List.forall_mem_append.mpr ⟨hw.2, fun _ => List.mem_takeWhile_imp⟩⟩
  refine ⟨_, ⟨gap, ms, gap', hmem, hgap, hms, hgap', hname, rfl⟩, ?_, Text.ends_dropWhile isWord r⟩
  conv_lhs => rw [← List.takeWhile_append_dropWhile (p := isWord) (l := r)]
  simp only [List.append_assoc]

theorem head?_eq_none_iff (t : Text) : head? t = none ↔ ¬Begins t := by
  rw [← not_iff_not, not_not, ← ne_eq, Option.ne_none_iff_exists']
  constructor
  · rintro ⟨h, hh⟩
    obtain ⟨s, hs, rfl, -⟩ := head?_eq_some_iff.mp hh
    exact ⟨s, ⟨_, _, hs⟩, List.prefix_append _ _⟩
  · rintro ⟨s, ⟨m, w, hs⟩, r, rfl⟩
    obtain ⟨h, hh, -⟩ := hs.exists_head? r
    exact ⟨h, hh⟩

theorem not_begins_nil : ¬Begins [] := (head?_eq_none_iff []).mp rfl

theorem exists_find?_iff {n : Int} :
    (∃ c, find? line n = some c) ↔ ∃ s, (∃ m w, IsDeclaration s m w) ∧ s <:+: line :=
  Text.exists_map_leftmost?_iff head?_eq_none_iff _

theorem find?_eq_some_iff {n : Int} {c : ClassDecl} :
    find? line n = some c ↔ c.startLine = n ∧ ∃ i, IsFirstAt line i c := by
  rw [find?, Option.map_eq_some_iff]
  constructor
  · rintro ⟨⟨i, h⟩, hl, rfl⟩
    obtain ⟨hh, hleast⟩ :=
      (Text.leftmost?_eq_some_iff_accepted head?_eq_none_iff not_begins_nil).mp hl
    obtain ⟨s, hs, ht, hrest⟩ := head?_eq_some_iff.mp hh
    dsimp only
    rw [Text.take_drop_eq ht]
    exact ⟨rfl, i, hs, ⟨h.rest, ht, hrest⟩, hleast⟩
  · rintro ⟨rfl, i, hdeclares, ⟨r, ht, hr⟩, hleast⟩
    have hh : head? (line.drop i) = some ⟨c.modifier, c.name, r⟩ :=
      head?_eq_some_iff.mpr ⟨c.statement, hdeclares, ht, hr⟩
    refine ⟨(i, ⟨c.modifier, c.name, r⟩),
      (Text.leftmost?_eq_some_iff_accepted head?_eq_none_iff not_begins_nil).mpr ⟨hh, hleast⟩, ?_⟩
    dsimp only
    rw [Text.take_drop_eq ht]

theorem IsFirstAt.unique {i : Nat} {c : ClassDecl} (hc : IsFirstAt line i c)
    (hs : IsDeclaration s m w) (hp : s <+: line.drop i) : m = c.modifier ∧ w <+: c.name := by
  obtain ⟨r, ht, hr⟩ := hc.text_eq
  obtain ⟨u, hu⟩ := hp
  obtain ⟨h, hh, rfl, hw⟩ := hs.exists_head? u
  have hh' : head? (line.drop i) = some ⟨c.modifier, c.name, r⟩ :=
    head?_eq_some_iff.mpr ⟨c.statement, hc.declares, ht, hr⟩
  rw [← hu] at hh'
  obtain rfl := Option.some.inj (hh.symm.trans hh')
  exact ⟨rfl, hw⟩

end ClassDecl

namespace PropertyDecl

/-- Nothing, or the word private with blanks after it. -/
def IsAccess (text : Text) : Prop :=
  text = [] ∨ ∃ gap, IsRun isBlank gap ∧ text = "private".text ++ gap

/-- Nothing, or a setter. -/
def IsSetter (text : Text) : Prop := text = [] ∨ text = "set;".text

/-- The text is a list of accessors: a getter, then a setter that may be left out and may be
private, with blanks around them. -/
def IsAccessors (text : Text) : Prop :=
  ∃ b₁ b₂ b₃ b₄ access setter, (∀ c ∈ b₁ ++ (b₂ ++ (b₃ ++ b₄)), isBlank c = true) ∧
    IsAccess access ∧ IsSetter setter ∧
    text = b₁ ++ .char '\x7b' :: (b₂ ++ ("get;".text ++ (b₃ ++ (access ++ (setter ++
      (b₄ ++ [.char '\x7d']))))))

/-- The text declares an automatic property: a modifier, blanks, a type, blanks, a name, and a list
of accessors. -/
def IsDeclaration (text modifier type name : Text) : Prop :=
  ∃ gap gap' accessors, modifier ∈ modifiers ∧ IsRun isBlank gap ∧ IsRun isTypeChar type ∧
    IsRun isBlank gap' ∧ IsRun isWord name ∧ IsAccessors accessors ∧
    text = modifier ++ (gap ++ (type ++ (gap' ++ (name ++ accessors))))

/-- The text begins with a declaration of a property. -/
def Begins (t : Text) : Prop := ∃ s, (∃ m y w, IsDeclaration s m y w) ∧ s <+: t

/-- The property is declared at place `i` of the line, and no declaration begins before. -/
structure IsFirstAt (line : Text) (i : Nat) (f : Found) : Prop where
  declares : IsDeclaration f.statement f.modifier f.type f.name
  isPrefix : f.statement <+: line.drop i
  least : ∀ j < i, ¬Begins (line.drop j)

variable {t s m y w r line : Text} {h : Head} {f : Found}

theorem exists_access (t : Text) : ∃ access, IsAccess access ∧ t = access ++ skipPrivate t := by
  rw [skipPrivate]
  cases hk : ClassDecl.keyword? "private" t with
  | none => exact ⟨[], Or.inl rfl, rfl⟩
  | some r =>
    obtain ⟨gap, hgap, rfl, -⟩ := ClassDecl.keyword?_eq_some_iff.mp hk
    exact ⟨_, Or.inr ⟨gap, hgap, rfl⟩, by simp⟩

theorem exists_setter (t : Text) : ∃ setter, IsSetter setter ∧ t = setter ++ skipSetter t := by
  rw [skipSetter]
  cases hk : Text.after? "set;" t with
  | none => exact ⟨[], Or.inl rfl, rfl⟩
  | some r => exact ⟨"set;", Or.inr rfl, Text.after?_eq_some_iff.mp hk⟩

/-- The access modifier is skipped with all blanks behind it. -/
theorem skipPrivate_append {access : Text} (ha : IsAccess access) (ht : Ends isBlank (access ++ t))
    (hp : t.head? ≠ some (.char 'p')) : skipPrivate (access ++ t) = t.dropWhile isBlank := by
  rcases ha with rfl | ⟨gap, hgap, rfl⟩
  · have hnone : ClassDecl.keyword? "private" t = none := by
      cases hk : ClassDecl.keyword? "private" t with
      | none => rfl
      | some r =>
        obtain ⟨gap, -, rfl, -⟩ := ClassDecl.keyword?_eq_some_iff.mp hk
        exact absurd rfl hp
    rw [List.nil_append, skipPrivate, hnone, Option.getD_none]
    exact (Text.dropWhile_eq_iff.mpr ⟨[], by simp, rfl, ht⟩).symm
  · have hkeyword : ClassDecl.keyword? "private" ("private".text ++ gap ++ t) =
        some (t.dropWhile isBlank) := by
      refine ClassDecl.keyword?_eq_some_iff.mpr ⟨gap ++ t.takeWhile isBlank, ⟨by simp [hgap.1], ?_⟩,
        ?_, Text.ends_dropWhile isBlank t⟩
      · exact List.forall_mem_append.mpr ⟨hgap.2, fun _ => List.mem_takeWhile_imp⟩
      · simp [List.takeWhile_append_dropWhile]
    rw [skipPrivate, hkeyword, Option.getD_some]

theorem closes_append {access setter bs : Text} (ha : IsAccess access) (hs : IsSetter setter)
    (hb : ∀ c ∈ bs, isBlank c = true)
    (ht : Ends isBlank (access ++ (setter ++ (bs ++ .char '\x7d' :: r)))) :
    symbol? [.char '\x7d']
      (skipSetter (skipPrivate (access ++ (setter ++ (bs ++ .char '\x7d' :: r))))) = some r := by
  have hclose : Ends isBlank [.char '\x7d'] := Text.ends_cons.mpr (by decide)
  have hdrop : (bs ++ CodePoint.char '\x7d' :: r).dropWhile isBlank = .char '\x7d' :: r :=
    Text.dropWhile_append_of_head? hb hclose
  rcases hs with rfl | rfl
  · have hp : (bs ++ CodePoint.char '\x7d' :: r).head? ≠ some (.char 'p') := by
      intro hp
      cases bs with
      | nil => simp at hp
      | cons b bs =>
        obtain rfl := Option.some.inj (hp : some b = _)
        exact absurd (hb _ List.mem_cons_self) (by decide)
    rw [List.nil_append] at ht ⊢
    rw [skipPrivate_append ha ht hp, hdrop]
    exact (symbol?_eq_some_iff (by simp) hclose).mpr ⟨[], by simp, rfl⟩
  · rw [skipPrivate_append ha ht (by simp [String.text])]
    exact (symbol?_eq_some_iff (by simp) hclose).mpr ⟨bs, hb, rfl⟩

/-- Blanks in front of the closing brace are dropped already if nothing stands before them. -/
theorem exists_dropWhile_eq {access setter bs : Text} (ha : IsAccess access) (hs : IsSetter setter)
    (hb : ∀ c ∈ bs, isBlank c = true) (r : Text) : ∃ bs', (∀ c ∈ bs', isBlank c = true) ∧
      (access ++ (setter ++ (bs ++ .char '\x7d' :: r))).dropWhile isBlank =
        access ++ (setter ++ (bs' ++ .char '\x7d' :: r)) := by
  have hself : ∀ {t}, Ends isBlank t → t.dropWhile isBlank = t :=
    fun ht => Text.dropWhile_eq_iff.mpr ⟨[], by simp, rfl, ht⟩
  rcases ha with rfl | ⟨gap, -, rfl⟩
  · rcases hs with rfl | rfl
    · exact ⟨[], by simp, Text.dropWhile_append_of_head? hb (Text.ends_cons.mpr (by decide))⟩
    · exact ⟨bs, hb, hself (Text.ends_cons.mpr (by decide))⟩
  · exact ⟨bs, hb, hself (Text.ends_cons.mpr (by decide))⟩

theorem accessors?_eq_some_iff : accessors? t = some r ↔ ∃ s, IsAccessors s ∧ t = s ++ r := by
  have hopen : ∀ {t r : Text}, symbol? [.char '\x7b'] t = some r ↔ _ :=
    symbol?_eq_some_iff (by simp) (Text.ends_cons.mpr (by decide))
  have hget : ∀ {t r : Text}, symbol? "get;" t = some r ↔ _ :=
    symbol?_eq_some_iff (by decide) (Text.ends_cons.mpr (by decide))
  have hclose : ∀ {t r : Text}, symbol? [.char '\x7d'] t = some r ↔ _ :=
    symbol?_eq_some_iff (by simp) (Text.ends_cons.mpr (by decide))
  simp only [accessors?, Option.bind_eq_some_iff, hopen, hget]
  constructor
  · rintro ⟨t₁, ⟨b₁, hb₁, rfl⟩, t₂, ⟨b₂, hb₂, rfl⟩, h⟩
    obtain ⟨access, ha, h₃⟩ := exists_access (t₂.dropWhile isBlank)
    obtain ⟨setter, hs, h₄⟩ := exists_setter (skipPrivate (t₂.dropWhile isBlank))
    obtain ⟨b₄, hb₄, h₅⟩ := hclose.mp h
    refine ⟨_, ⟨b₁, b₂, t₂.takeWhile isBlank, b₄, access, setter, ?_, ha, hs, rfl⟩, ?_⟩
    · simp only [List.forall_mem_append]
      exact ⟨hb₁, hb₂, fun _ => List.mem_takeWhile_imp, hb₄⟩
    · conv_lhs => rw [← List.takeWhile_append_dropWhile (p := isBlank) (l := t₂), h₃, h₄, h₅]
      simp
  · rintro ⟨s, ⟨b₁, b₂, b₃, b₄, access, setter, hb, ha, hs, rfl⟩, rfl⟩
    simp only [List.forall_mem_append] at hb
    obtain ⟨hb₁, hb₂, hb₃, hb₄⟩ := hb
    refine ⟨b₂ ++ ("get;".text ++ (b₃ ++ (access ++ (setter ++ (b₄ ++ .char '\x7d' :: r))))),
      ⟨b₁, hb₁, by simp⟩, _, ⟨b₂, hb₂, rfl⟩, ?_⟩
    obtain ⟨bs, hbs, hdrop⟩ := exists_dropWhile_eq ha hs hb₄ r
    have hends := Text.ends_dropWhile isBlank (access ++ (setter ++ (b₄ ++ .char '\x7d' :: r)))
    rw [hdrop] at hends
    rw [List.dropWhile_append_of_pos hb₃, hdrop]
    exact closes_append ha hs hbs hends

theorem IsAccessors.ends (hs : IsAccessors s) : Ends isWord s := by
  obtain ⟨b₁, b₂, b₃, b₄, access, setter, hb, -, -, rfl⟩ := hs
  cases b₁ with
  | nil => exact Text.ends_cons.mpr (by decide +kernel)
  | cons b b₁ => exact Text.ends_cons.mpr (Text.isWord_of_isBlank (hb b (by simp)))

theorem IsAccessors.ne_nil (hs : IsAccessors s) : s ≠ [] := by
  obtain ⟨b₁, b₂, b₃, b₄, access, setter, -, -, -, rfl⟩ := hs
  simp

theorem isTypeChar_of_isBlank {c : CodePoint} (hc : isBlank c = true) : isTypeChar c = false := by
  cases ht : isTypeChar c with
  | false => rfl
  | true =>
    rw [Codegen.isBlank_of_isTypeChar ht] at hc
    exact absurd hc Bool.false_ne_true

theorem head?_eq_some_iff : head? t = some h ↔
    ∃ s, IsDeclaration s h.modifier h.type h.name ∧ t = s ++ h.rest := by
  have hsub : modifiers ⊆ ClassDecl.accessModifiers ++ ClassDecl.furtherModifiers := by decide
  constructor
  · intro hh
    obtain ⟨⟨m, r₁⟩, hm, hh⟩ := Option.bind_eq_some_iff.mp hh
    obtain ⟨⟨type, r₂⟩, ht, hh⟩ := Option.bind_eq_some_iff.mp hh
    obtain ⟨r₃, hb, hh⟩ := Option.bind_eq_some_iff.mp hh
    obtain ⟨⟨name, r₄⟩, hn, hh⟩ := Option.bind_eq_some_iff.mp hh
    obtain ⟨r₅, ha, rfl⟩ := Option.map_eq_some_iff.mp hh
    obtain ⟨hmem, hm⟩ := (ClassDecl.anyKeyword?_eq_some_iff hsub).mp hm
    obtain ⟨gap, hgap, rfl, -⟩ := ClassDecl.keyword?_eq_some_iff.mp hm
    obtain ⟨htype, rfl, -⟩ := run?_eq_some_iff.mp ht
    obtain ⟨gap', hgap', rfl, -⟩ := Text.blanks?_eq_some_iff.mp hb
    obtain ⟨hname, rfl, -⟩ := run?_eq_some_iff.mp hn
    obtain ⟨accessors, hacc, rfl⟩ := accessors?_eq_some_iff.mp ha
    exact ⟨_, ⟨gap, gap', accessors, hmem, hgap, htype, hgap', hname, hacc, rfl⟩, by simp⟩
  · rintro ⟨s, ⟨gap, gap', accessors, hmem, hgap, htype, hgap', hname, ha, rfl⟩, rfl⟩
    simp only [List.append_assoc]
    refine Option.bind_eq_some_iff.mpr ⟨(h.modifier, _),
      (ClassDecl.anyKeyword?_eq_some_iff hsub).mpr ⟨hmem, ClassDecl.keyword?_eq_some_iff.mpr
        ⟨gap, hgap, rfl, htype.ends (fun _ => Codegen.isBlank_of_isTypeChar) _⟩⟩, ?_⟩
    refine Option.bind_eq_some_iff.mpr ⟨(h.type, _), run?_eq_some_iff.mpr
      ⟨htype, rfl, hgap'.ends (fun _ => isTypeChar_of_isBlank) _⟩, ?_⟩
    refine Option.bind_eq_some_iff.mpr ⟨_, Text.blanks?_eq_some_iff.mpr
      ⟨gap', hgap', rfl, hname.ends (fun _ => Text.isBlank_of_isWord) _⟩, ?_⟩
    refine Option.bind_eq_some_iff.mpr ⟨(h.name, _), run?_eq_some_iff.mpr
      ⟨hname, rfl, (Text.ends_append_of_ne_nil ha.ne_nil).mpr ha.ends⟩, ?_⟩
    exact Option.map_eq_some_iff.mpr ⟨h.rest, accessors?_eq_some_iff.mpr ⟨accessors, ha, rfl⟩, rfl⟩

theorem head?_eq_none_iff (t : Text) : head? t = none ↔ ¬Begins t := by
  rw [← not_iff_not, not_not, ← ne_eq, Option.ne_none_iff_exists']
  constructor
  · rintro ⟨h, hh⟩
    obtain ⟨s, hs, rfl⟩ := head?_eq_some_iff.mp hh
    exact ⟨s, ⟨_, _, _, hs⟩, List.prefix_append _ _⟩
  · rintro ⟨s, ⟨m, y, w, hs⟩, r, rfl⟩
    exact ⟨⟨m, y, w, r⟩, head?_eq_some_iff.mpr ⟨s, hs, rfl⟩⟩

theorem not_begins_nil : ¬Begins [] := (head?_eq_none_iff []).mp rfl

theorem exists_find?_iff :
    (∃ f, find? line = some f) ↔ ∃ s, (∃ m y w, IsDeclaration s m y w) ∧ s <:+: line :=
  Text.exists_map_leftmost?_iff head?_eq_none_iff _

theorem find?_eq_some_iff : find? line = some f ↔ ∃ i, IsFirstAt line i f := by
  rw [find?, Option.map_eq_some_iff]
  constructor
  · rintro ⟨⟨i, h⟩, hl, rfl⟩
    obtain ⟨hh, hleast⟩ :=
      (Text.leftmost?_eq_some_iff_accepted head?_eq_none_iff not_begins_nil).mp hl
    obtain ⟨s, hs, ht⟩ := head?_eq_some_iff.mp hh
    dsimp only
    rw [Text.take_drop_eq ht]
    exact ⟨i, hs, ⟨h.rest, ht.symm⟩, hleast⟩
  · rintro ⟨i, hdeclares, ⟨r, ht⟩, hleast⟩
    have hh : head? (line.drop i) = some ⟨f.modifier, f.type, f.name, r⟩ :=
      head?_eq_some_iff.mpr ⟨f.statement, hdeclares, ht.symm⟩
    refine ⟨(i, ⟨f.modifier, f.type, f.name, r⟩),
      (Text.leftmost?_eq_some_iff_accepted head?_eq_none_iff not_begins_nil).mpr ⟨hh, hleast⟩, ?_⟩
    dsimp only
    rw [Text.take_drop_eq ht.symm]

/-- Where a property is declared, the grammar leaves no choice. -/
theorem IsFirstAt.unique {i : Nat} (hf : IsFirstAt line i f) (hs : IsDeclaration s m y w)
    (hp : s <+: line.drop i) : m = f.modifier ∧ y = f.type ∧ w = f.name ∧ s = f.statement := by
  obtain ⟨u, hu⟩ := hp
  obtain ⟨r, hr⟩ := hf.isPrefix
  have hh : head? (line.drop i) = some ⟨m, y, w, u⟩ := head?_eq_some_iff.mpr ⟨s, hs, hu.symm⟩
  have hh' : head? (line.drop i) = some ⟨f.modifier, f.type, f.name, r⟩ :=
    head?_eq_some_iff.mpr ⟨f.statement, hf.declares, hr.symm⟩
  obtain ⟨rfl, rfl, rfl, rfl⟩ := Head.mk.inj (Option.some.inj (hh.symm.trans hh'))
  exact ⟨rfl, rfl, rfl, List.append_cancel_right (hu.trans hr.symm)⟩

end PropertyDecl

/-- The detectors of classes and of properties accept exactly the lines in which a declaration
stands. They report the one that begins first, with the longest name of a class, and nothing else
can be read at its place. -/
theorem detectors_accept_grammars (line : Text) (n : Int) :
    ((∃ c, ClassDecl.find? line n = some c) ↔
      ∃ s, (∃ m w, ClassDecl.IsDeclaration s m w) ∧ s <:+: line) ∧
    (∀ c, ClassDecl.find? line n = some c ↔
      c.startLine = n ∧ ∃ i, ClassDecl.IsFirstAt line i c) ∧
    (∀ i c, ClassDecl.IsFirstAt line i c → ∀ s m w, ClassDecl.IsDeclaration s m w →
      s <+: line.drop i → m = c.modifier ∧ w <+: c.name) ∧
    ((∃ f, PropertyDecl.find? line = some f) ↔
      ∃ s, (∃ m y w, PropertyDecl.IsDeclaration s m y w) ∧ s <:+: line) ∧
    (∀ f, PropertyDecl.find? line = some f ↔ ∃ i, PropertyDecl.IsFirstAt line i f) ∧
    ∀ i f, PropertyDecl.IsFirstAt line i f → ∀ s m y w, PropertyDecl.IsDeclaration s m y w →
      s <+: line.drop i → m = f.modifier ∧ y = f.type ∧ w = f.name ∧ s = f.statement :=
  ⟨ClassDecl.exists_find?_iff, fun _ => ClassDecl.find?_eq_some_iff,
    fun _ _ hc _ _ _ hs hp => hc.unique hs hp, PropertyDecl.exists_find?_iff,
    fun _ => PropertyDecl.find?_eq_some_iff, fun _ _ hf _ _ _ _ hs hp => hf.unique hs hp⟩

end CSharpActions
