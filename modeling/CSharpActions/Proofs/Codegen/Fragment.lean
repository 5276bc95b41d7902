import CSharpActions.Codegen.Constructor
import CSharpActions.Proofs.Document.Line

/-!
# The lines of generated code

A declaration and an assignment are one line each; a constructor has one line for each property
and four more. Names bring no line feed into them.
-/
namespace CSharpActions

namespace Text

variable {expansions : List (Nat × List Nat)} {runs : List CaseRun} {c x : CodePoint}

/-- A change of case takes a character of an expansion, moves along a run, or does nothing. -/
theorem cases_of_mem_mapCase (hx : x ∈ mapCase expansions runs c) :
    (∃ e ∈ expansions, ∃ n ∈ e.2, x = .ofNat n) ∨
      (∃ r ∈ runs, r.first ≤ c.toNat ∧ c.toNat ≤ r.last ∧
        x = .ofNat ((c.toNat : Int) + r.shift).toNat) ∨
      x = c := by
  unfold mapCase at hx
  split at hx
  · rename_i codes hl
    obtain ⟨n, hn, rfl⟩ := List.mem_map.mp hx
    obtain ⟨l₁, l₂, rfl, -⟩ := List.lookup_eq_some_iff.mp hl
    exact Or.inl ⟨(c.toNat, codes), by simp, n, hn, rfl⟩
  · split at hx
    · rename_i r hf
      have hcov := List.find?_some hf
      simp only [CaseRun.covers, Bool.and_eq_true, decide_eq_true_eq] at hcov
      obtain rfl := List.mem_singleton.mp hx
      exact Or.inr (Or.inl ⟨r, List.mem_of_find?_eq_some hf, hcov.1.1, hcov.1.2, rfl⟩)
    · exact Or.inr (Or.inr (List.mem_singleton.mp hx))

theorem toNat_of_mem_mapCase {low : Nat}
    (he : ∀ e ∈ expansions, ∀ n ∈ e.2, low ≤ n ∧ n < 0x110000)
    (hr : ∀ r ∈ runs, low ≤ r.first + r.shift ∧ r.last + r.shift < 0x110000)
    (hx : x ∈ mapCase expansions runs c) : x = c ∨ low ≤ x.toNat := by
  rcases cases_of_mem_mapCase hx with ⟨e, hm, n, hn, rfl⟩ | ⟨r, hm, hfirst, hlast, rfl⟩ | hc
  · obtain ⟨h₁, h₂⟩ := he e hm n hn
    right
    rwa [CodePoint.toNat_ofNat h₂]
  · obtain ⟨h₁, h₂⟩ := hr r hm
    right
    rw [CodePoint.toNat_ofNat (by omega)]
    omega
  · exact Or.inl hc

/-- A change of case brings in no character of ranges that its tables keep clear of. -/
theorem eq_of_mem_mapCase {ranges : Ranges}
    (he : ∀ e ∈ expansions, ∀ n ∈ e.2, n < 0x110000 ∧ ∀ p ∈ ranges, n < p.1 ∨ p.2 < n)
    (hr : ∀ r ∈ runs, 0 ≤ r.first + r.shift ∧ r.last + r.shift < 0x110000 ∧
      ∀ p ∈ ranges, r.last + r.shift < p.1 ∨ p.2 < r.first + r.shift)
    (hx : x ∈ mapCase expansions runs c) (h : ranges.has x = true) : x = c := by
  obtain ⟨p, hp, hlow, hhigh⟩ := Ranges.exists_of_contains h
  rcases cases_of_mem_mapCase hx with ⟨e, hm, n, hn, rfl⟩ | ⟨r, hm, hfirst, hlast, rfl⟩ | hc
  · obtain ⟨hlt, hout⟩ := he e hm n hn
    rw [CodePoint.toNat_ofNat hlt] at hlow hhigh
    have := hout p hp
    omega
  · obtain ⟨h0, hlt, hout⟩ := hr r hm
    rw [CodePoint.toNat_ofNat (by omega)] at hlow hhigh
    have := hout p hp
    omega
  · exact hc

theorem toNat_of_mem_upper (hx : x ∈ upper c) : x = c ∨ 65 ≤ x.toNat :=
  toNat_of_mem_mapCase (by decide +kernel) (by decide +kernel) hx

theorem toNat_of_mem_lower (hx : x ∈ lower c) : x = c ∨ 65 ≤ x.toNat :=
  toNat_of_mem_mapCase (by decide +kernel) (by decide +kernel) hx

/-- The blanks, and the characters of ASCII besides the small letters. -/
def unlettered : Ranges := (0, 96) :: (123, 127) :: blankRanges.drop 2

theorem eq_of_mem_lower (hx : x ∈ lower c) (h : unlettered.has x = true) : x = c :=
  eq_of_mem_mapCase (by decide +kernel) (by decide +kernel) hx h

end Text

namespace Codegen

variable {x : CodePoint}

/-- Change of case brings in no character below the letters. -/
theorem not_mem_capitalize {name : Text} (hx : x.toNat < 65) (h : x ∉ name) :
    x ∉ capitalize name := by
  cases name with
  | nil => exact h
  | cons c r =>
    intro hm
    rcases List.mem_append.mp hm with hm | hm
    · rcases Text.toNat_of_mem_upper hm with rfl | hl
      · exact h List.mem_cons_self
      · omega
    · exact h (List.mem_cons_of_mem c hm)

theorem mem_camelize {name : Text} (h : x ∈ camelize name) :
    x ∈ name ∨ ∃ c ∈ name, x ∈ Text.lower c := by
  have hsub : Text.trim name ⊆ name := (Text.trim_infix name).subset
  unfold camelize at h
  split at h
  · simp at h
  · rename_i c r hn
    rw [hn] at hsub
    split at h
    · simp at h
    · rcases List.mem_append.mp h with h | h
      · exact Or.inr ⟨c, hsub List.mem_cons_self, h⟩
      · exact Or.inl (hsub (List.mem_cons_of_mem c h))

theorem not_mem_camelize {name : Text} (hx : x.toNat < 65) (h : x ∉ name) :
    x ∉ camelize name := by
  intro hm
  rcases mem_camelize hm with hm | ⟨c, hc, hm⟩
  · exact h hm
  · rcases Text.toNat_of_mem_lower hm with rfl | hl
    · exact h hc
    · omega

/-- A declaration has the characters of its type and its name besides those of every declaration
of its kind. -/
theorem not_mem_memberDeclaration {kind : MemberKind} {type member : Text}
    (hx : x ∉ memberDeclaration kind [] []) (ht : x ∉ type) (hm : x ∉ member) :
    x ∉ memberDeclaration kind type member := by
  cases kind <;> simp_all [memberDeclaration]

theorem not_mem_memberAssignment {s : Settings} {member parameter : Text}
    (hx : x ∉ memberAssignment s [] []) (hm : x ∉ member) (hp : x ∉ parameter) :
    x ∉ memberAssignment s member parameter := by
  simp_all [memberAssignment]

theorem getLast?_memberDeclaration (kind : MemberKind) (type member : Text) :
    (memberDeclaration kind type member).getLast? = some (.char ';') ∨
      (memberDeclaration kind type member).getLast? = some (.char '}') := by
  cases kind with
  | field => exact Or.inl (List.getLast?_concat ..)
  | readonlyProperty => exact Or.inr (List.getLast?_append_of_ne_nil _ (by decide))
  | property => exact Or.inr (List.getLast?_append_of_ne_nil _ (by decide))

theorem getLast?_memberAssignment (s : Settings) (member parameter : Text) :
    (memberAssignment s member parameter).getLast? = some (.char ';') :=
  List.getLast?_append_of_ne_nil _ (by decide)

/-- A style of indentations and a line break. -/
structure Style.IsProper (style : Style) (s : Settings) : Prop where
  memberIndent : ∀ c ∈ style.memberIndent s, Document.isIndent c = true
  bodyIndent : ∀ c ∈ style.bodyIndent s, Document.isIndent c = true
  eol : Line.IsBreak style.eol

theorem plain_append {indent t : Text} (hi : ∀ c ∈ indent, Document.isIndent c = true)
    (hn : CodePoint.char '\n' ∉ t) {c : CodePoint} (hc : t.getLast? = some c)
    (hr : c ≠ .char '\r') : Line.Plain (indent ++ t) := by
  have ht : t ≠ [] := by
    rintro rfl
    simp at hc
  refine ⟨?_, ?_⟩
  · intro hm
    rcases List.mem_append.mp hm with hm | hm
    · simpa [Document.isIndent] using hi _ hm
    · exact hn hm
  · rw [List.getLast?_append_of_ne_nil _ ht, hc]
    simpa using hr

section Member

variable {s : Settings} {style : Style} {kind : MemberKind} {type parameter : Text}

theorem not_mem_memberName (hx : x.toNat < 65) (hs : x ∉ s.privatePrefix) (hp : x ∉ parameter) :
    x ∉ memberName kind s parameter := by
  cases kind with
  | field => simpa [memberName] using ⟨hs, hp⟩
  | readonlyProperty => exact not_mem_capitalize hx hp
  | property => exact not_mem_capitalize hx hp

theorem plain_declaration (kind : MemberKind) (hs : style.IsProper s)
    (hf : CodePoint.char '\n' ∉ s.privatePrefix) (ht : CodePoint.char '\n' ∉ type)
    (hp : CodePoint.char '\n' ∉ parameter) :
    Line.Plain (style.memberIndent s ++
      memberDeclaration kind type (memberName kind s parameter)) := by
  have hn : CodePoint.char '\n' ∉ memberDeclaration kind type (memberName kind s parameter) :=
    not_mem_memberDeclaration (by cases kind <;> decide) ht (not_mem_memberName (by decide) hf hp)
  rcases getLast?_memberDeclaration kind type (memberName kind s parameter) with h | h
  · exact plain_append hs.memberIndent hn h (by decide)
  · exact plain_append hs.memberIndent hn h (by decide)

theorem plain_assignment (kind : MemberKind) (hs : style.IsProper s)
    (hf : CodePoint.char '\n' ∉ s.privatePrefix) (hp : CodePoint.char '\n' ∉ parameter) :
    Line.Plain (style.bodyIndent s ++
      memberAssignment s (memberName kind s parameter) parameter) := by
  have h0 : CodePoint.char '\n' ∉ memberAssignment s [] [] := by
    simp only [memberAssignment, selfPrefix]
    split <;> decide
  have hm : CodePoint.char '\n' ∉ memberName kind s parameter :=
    not_mem_memberName (by decide) hf hp
  have hn := not_mem_memberAssignment h0 hm hp
  exact plain_append hs.bodyIndent hn (getLast?_memberAssignment s _ parameter) (by decide)

theorem isOneLine_declaration (hs : style.IsProper s)
    (hf : CodePoint.char '\n' ∉ s.privatePrefix) (ht : CodePoint.char '\n' ∉ type)
    (hp : CodePoint.char '\n' ∉ parameter) :
    Line.IsOneLine (generateMember kind type parameter s style).declaration := by
  refine ⟨⟨_, _⟩, rfl, Line.inner_of_plain (plain_declaration kind hs hf ht hp) hs.eol, ?_⟩
  rcases getLast?_memberDeclaration kind type (memberName kind s parameter) with h | h
  · exact ⟨_, List.mem_append_right _ (List.mem_of_getLast? h), by decide⟩
  · exact ⟨_, List.mem_append_right _ (List.mem_of_getLast? h), by decide⟩

theorem isOneLine_assignment (hs : style.IsProper s)
    (hf : CodePoint.char '\n' ∉ s.privatePrefix) (hp : CodePoint.char '\n' ∉ parameter) :
    Line.IsOneLine (generateMember kind type parameter s style).assignment := by
  have h := getLast?_memberAssignment s (memberName kind s parameter) parameter
  exact ⟨⟨_, _⟩, rfl, Line.inner_of_plain (plain_assignment kind hs hf hp) hs.eol, _,
    List.mem_append_right _ (List.mem_of_getLast? h), by decide⟩

theorem trim_line {indent t e : Text} (hi : ∀ c ∈ indent, Document.isIndent c = true)
    (he : Line.IsBreak e) : Text.trim (indent ++ t ++ e) = Text.trim t := by
  have hb : ∀ c ∈ e, Text.isBlank c = true := by
    rcases he with rfl | rfl <;> decide
  rw [Text.trim_append_blank hb, Text.trim_blank_append]
  exact fun c hc => Document.isBlank_of_isIndent (hi c hc)

/-- What is looked for of a member does not depend on the style. -/
theorem trim_generateMember (kind : MemberKind) (type parameter : Text) (hs : style.IsProper s) :
    Text.trim (generateMember kind type parameter s style).declaration =
        Text.trim (memberDeclaration kind type (memberName kind s parameter)) ∧
      Text.trim (generateMember kind type parameter s style).assignment =
        Text.trim (memberAssignment s (memberName kind s parameter) parameter) :=
  ⟨trim_line hs.memberIndent hs.eol, trim_line hs.bodyIndent hs.eol⟩

end Member

section Constructor

variable {s : Settings} {style : Style} {modifier name : Text} {fields : List Field}

theorem length_constructorLines (modifier name : Text) (fields : List Field) (s : Settings)
    (style : Style) :
    (constructorLines modifier name fields s style).length = fields.length + 4 := by
  simp [constructorLines, constructorAssignments]

theorem intercalate_append_sep {sep : Text} {ls : List Text} (h : ls ≠ []) :
    List.intercalate sep ls ++ sep = Line.join (ls.map fun l => ⟨l, sep⟩) := by
  induction ls with
  | nil => exact absurd rfl h
  | cons l ls ih =>
    cases ls with
    | nil => simp [List.intercalate, Line.text]
    | cons m ls =>
      have ih := ih (by simp)
      simp only [List.map_cons, Line.join_cons] at ih ⊢
      rw [← ih]
      simp [List.intercalate, Line.text]

theorem plain_constructorLines (hs : style.IsProper s) (hm : CodePoint.char '\n' ∉ modifier)
    (hn : CodePoint.char '\n' ∉ name)
    (hf : ∀ f ∈ fields, CodePoint.char '\n' ∉ f.type ∧ CodePoint.char '\n' ∉ f.name) :
    ∀ l ∈ constructorLines modifier name fields s style, Line.Plain l := by
  have hp : CodePoint.char '\n' ∉ List.intercalate ", " (constructorParameters fields) := by
    refine Text.not_mem_intercalate (by decide) fun part hpart => ?_
    obtain ⟨f, hfm, rfl⟩ := List.mem_map.mp hpart
    have hc := not_mem_camelize (x := .char '\n') (by decide) (hf f hfm).2
    simp [(hf f hfm).1, hc, String.text]
  intro l hl
  simp only [constructorLines, List.mem_append, List.mem_cons, List.not_mem_nil, or_false] at hl
  rcases hl with ((rfl | rfl) | hl) | (rfl | rfl)
  · have ha : style.memberIndent s ++ modifier ++ " ".text ++ name ++ "(".text ++
          List.intercalate ", ".text (constructorParameters fields) ++ ")".text =
        style.memberIndent s ++ (modifier ++ " ".text ++ name ++ "(".text ++
          List.intercalate ", ".text (constructorParameters fields) ++ ")".text) := by
      simp only [List.append_assoc]
    rw [ha]
    refine plain_append hs.memberIndent (c := .char ')') ?_ ?_ (by decide)
    · simp only [List.mem_append, not_or]
      exact ⟨⟨⟨⟨⟨hm, by decide⟩, hn⟩, by decide⟩, hp⟩, by decide⟩
    · exact List.getLast?_append_of_ne_nil _ (by decide)
  · exact plain_append hs.memberIndent (by decide) (c := .char '{') rfl (by decide)
  · obtain ⟨a, ha, rfl⟩ := List.mem_map.mp hl
    obtain ⟨f, hfm, rfl⟩ := List.mem_map.mp ha
    have hc := not_mem_camelize (x := .char '\n') (by decide) (hf f hfm).2
    have h0 : CodePoint.char '\n' ∉ selfPrefix s := by
      unfold selfPrefix
      split <;> decide
    refine plain_append hs.bodyIndent (c := .char ';') ?_ ?_ (by decide)
    · simp only [List.mem_append, not_or]
      exact ⟨⟨⟨⟨h0, (hf f hfm).2⟩, by decide⟩, hc⟩, by decide⟩
    · exact List.getLast?_append_of_ne_nil _ (by decide)
  · exact plain_append hs.memberIndent (by decide) (c := .char '}') rfl (by decide)
  · exact ⟨by simp, by simp⟩

/-- The text of a constructor is made of its lines. -/
theorem generateConstructor_eq (modifier name : Text) (fields : List Field) (s : Settings)
    (style : Style) :
    generateConstructor modifier name fields s style =
      Line.join ((constructorLines modifier name fields s style).map fun l => ⟨l, style.eol⟩) := by
  have hlen := length_constructorLines modifier name fields s style
  apply intercalate_append_sep
  rintro h
  simp [h] at hlen

theorem isFragment_generateConstructor (hs : style.IsProper s)
    (hm : CodePoint.char '\n' ∉ modifier) (hn : CodePoint.char '\n' ∉ name)
    (hf : ∀ f ∈ fields, CodePoint.char '\n' ∉ f.type ∧ CodePoint.char '\n' ∉ f.name) :
    Line.IsFragment (generateConstructor modifier name fields s style) ∧
      (Line.ofFragment (generateConstructor modifier name fields s style)).length =
        fields.length + 4 := by
  have hi : ∀ l ∈ (constructorLines modifier name fields s style).map
      (fun l => (⟨l, style.eol⟩ : Line)), l.Inner := by
    intro l hl
    obtain ⟨t, ht, rfl⟩ := List.mem_map.mp hl
    exact Line.inner_of_plain (plain_constructorLines hs hm hn hf t ht) hs.eol
  rw [generateConstructor_eq]
  refine ⟨Line.isFragment_join hi ?_, ?_⟩
  · intro l hl
    simp only [constructorLines, List.cons_append, List.map_cons, List.head?_cons,
      Option.some.injEq] at hl
    subst hl
    simp [String.text]
  · rw [Line.ofFragment_join hi, List.length_map, length_constructorLines]

end Constructor

end Codegen

end CSharpActions
