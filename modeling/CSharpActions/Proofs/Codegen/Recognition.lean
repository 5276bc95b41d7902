import CSharpActions.Action.Basic
import CSharpActions.Proofs.Codegen.Constructor
import CSharpActions.Proofs.Declaration.Ownership

/-!
# Generated properties are found again

A property that is generated for a parameter is found again, with its type and its name, exactly if
its type has no character but those that the detector takes and its name is still a word when it is
capitalised. Then each constructor that is offered for the properties of its class takes it in.
-/
namespace CSharpActions

open Text (isBlank isBlank_of_isWord isWord upper)

namespace Text

theorem mapCase_ne_nil {expansions : List (Nat × List Nat)} {runs : List CaseRun}
    (h : ∀ e ∈ expansions, e.2 ≠ []) (c : CodePoint) : mapCase expansions runs c ≠ [] := by
  unfold mapCase
  split
  · rename_i codes hl
    obtain ⟨l₁, l₂, rfl, -⟩ := List.lookup_eq_some_iff.mp hl
    simpa using h (c.toNat, codes) (by simp)
  · split <;> simp

end Text

namespace PropertyDecl

variable {type name t : Text} {h : Head}

theorem anyKeyword?_public (h : ∀ c, t.head? = some c → isBlank c = false) :
    ClassDecl.anyKeyword? modifiers ("public ".text ++ t) = some ("public".text, t) := by
  have hkeyword : ClassDecl.keyword? "public" ("public ".text ++ t) = some t :=
    Text.blanks?_cons (c := .char ' ') (by decide) h
  rw [ClassDecl.anyKeyword?, modifiers, List.findSome?_cons, hkeyword, Option.map_some]

/-- A public property in front of its accessors. -/
theorem head?_public (htn : type ≠ []) (ht : ∀ c ∈ type, isTypeChar c = true) (hnn : name ≠ [])
    (hn : ∀ c ∈ name, isWord c = true) {rest : Text}
    (ha : accessors? (.char ' ' :: t) = some rest) :
    head? ("public ".text ++ (type ++ .char ' ' :: (name ++ .char ' ' :: t))) =
      some ⟨"public", type, name, rest⟩ := by
  have htype : ∀ c, (type ++ .char ' ' :: (name ++ .char ' ' :: t)).head? = some c →
      isBlank c = false := by
    intro c hc
    rw [List.head?_append_of_ne_nil _ htn] at hc
    exact Codegen.isBlank_of_isTypeChar (ht c (List.mem_of_head? hc))
  have hname : ∀ c, (name ++ .char ' ' :: t).head? = some c → isBlank c = false := by
    intro c hc
    rw [List.head?_append_of_ne_nil _ hnn] at hc
    exact isBlank_of_isWord (hn c (List.mem_of_head? hc))
  have hspace : ∀ {p : CodePoint → Bool}, p (.char ' ') = false →
      ∀ {r : Text} c, (CodePoint.char ' ' :: r).head? = some c → p c = false :=
    fun hp _ _ hc => Option.some.inj hc ▸ hp
  refine Option.bind_eq_some_iff.mpr ⟨_, anyKeyword?_public htype, ?_⟩
  refine Option.bind_eq_some_iff.mpr ⟨_, run?_append htn ht (hspace (by decide)), ?_⟩
  refine Option.bind_eq_some_iff.mpr ⟨_, Text.blanks?_cons (by decide) hname, ?_⟩
  refine Option.bind_eq_some_iff.mpr ⟨_, run?_append hnn hn (hspace (by decide)), ?_⟩
  exact Option.map_eq_some_iff.mpr ⟨rest, ha, rfl⟩

theorem find?_of_head? {code rest : Text} (hh : head? (code ++ rest) = some h)
    (hr : h.rest = rest) : find? (code ++ rest) = some ⟨h.modifier, h.type, h.name, code⟩ := by
  have hstatement : (code ++ rest).take ((code ++ rest).length - h.rest.length) = code := by
    rw [hr, List.length_append, Nat.add_sub_cancel, List.take_left]
  rw [find?, Text.leftmost?_of_some hh, Option.map_some]
  exact congrArg (fun code => some (Found.mk h.modifier h.type h.name code)) hstatement

end PropertyDecl

namespace Document

variable {d : Document} {n : Nat} {line : Text} {found : PropertyDecl.Found} {owner : ClassDecl}

/-- Wherever a constructor for the properties of its class is asked for, it takes the property
in. -/
def TakesIn (d : Document) (property : PropertyDecl) : Prop :=
  ∀ (p : Position) (s : Settings) (here : ClassDecl), d.enclosingClass p.line = some here →
    here.name = property.owner.name → ∃ action plan, d.constructorAction p s = some action ∧
      action.plan = .constructor plan ∧ property ∈ plan.properties

theorem mem_propertiesOf (hline : d.lines[n]? = some line)
    (hfound : PropertyDecl.find? line = some found) (howner : d.enclosingClass n = some owner) :
    ⟨owner, found.modifier, found.type, found.name, n, found.statement⟩ ∈
      d.propertiesOf owner.name := by
  have hlt : n < d.lineCount := (List.getElem?_eq_some_iff.mp hline).1
  rw [propertiesOf_eq_filterMap]
  refine List.mem_filterMap.mpr ⟨n, List.mem_range.mpr hlt, ?_⟩
  exact Option.bind_eq_some_iff.mpr ⟨line, hline,
    propertyOn_eq_some_iff.mpr ⟨hfound, howner, rfl, rfl⟩⟩

theorem takesIn_of_find? (hline : d.lines[n]? = some line)
    (hfound : PropertyDecl.find? line = some found) (howner : d.enclosingClass n = some owner) :
    d.TakesIn ⟨owner, found.modifier, found.type, found.name, n, found.statement⟩ := by
  intro p s here hhere hname
  have hmem := mem_propertiesOf hline hfound howner
  rw [← hname] at hmem
  rw [constructorAction, hhere, Option.bind_some]
  cases hprops : d.propertiesOf here.name with
  | nil =>
    rw [hprops] at hmem
    exact absurd hmem List.not_mem_nil
  | cons first rest => exact ⟨_, _, rfl, rfl, hprops ▸ hmem⟩

end Document

namespace Parameter

/-- The type has only characters that the detector takes for a type, and the first character of the
name has a capital of word characters. -/
def IsDetectable (q : Parameter) : Prop :=
  (∀ c ∈ q.type, PropertyDecl.isTypeChar c = true) ∧
    ∀ c ∈ q.name.head?, ∀ x ∈ upper c, isWord x = true
deriving Decidable

theorem ne_nil_of_mem_parse {raw : Text} {q : Parameter} (hq : q ∈ parse raw) :
    q.type ≠ [] ∧ q.name ≠ [] := by
  obtain ⟨part, -, hpart⟩ := List.mem_filterMap.mp hq
  obtain ⟨ws, -, hne, htokens, htype⟩ := exists_tokens_eq hpart
  have hword : ∀ w ∈ ws ++ [q.name], w ≠ [] := by
    intro w hw
    rw [← htokens] at hw
    exact Text.ne_nil_of_mem_fields (List.mem_of_mem_filter hw)
  refine ⟨?_, hword q.name (by simp)⟩
  obtain ⟨w, ws, rfl⟩ := List.exists_cons_of_ne_nil hne
  have hw : w ≠ [] := hword w (by simp)
  rw [htype]
  cases ws with
  | nil => simpa using hw
  | cons v ws => simp [List.intercalate_cons_cons, hw]

end Parameter

namespace Codegen

open PropertyDecl (find? isTypeChar)

variable {kind : MemberKind} {type member name : Text} {s : Settings} {style : Style}

theorem capitalize_ne_nil (h : name ≠ []) : capitalize name ≠ [] := by
  cases name with
  | nil => exact h
  | cons c r => exact List.append_ne_nil_of_left_ne_nil (Text.mapCase_ne_nil (by decide) c) r

/-- Capitalising leaves a word a word, unless its first character has a capital that is none. -/
theorem forall_isWord_capitalize_iff (h : ∀ c ∈ name, isWord c = true) :
    (∀ c ∈ capitalize name, isWord c = true) ↔
      ∀ c ∈ name.head?, ∀ x ∈ upper c, isWord x = true := by
  cases name with
  | nil => simp [capitalize]
  | cons c r =>
    rw [capitalize, List.forall_mem_append, and_iff_left (List.forall_mem_cons.mp h).2]
    simp

/-- What stands behind the name of a property of the kind. -/
def accessorsCode : MemberKind → Text
  | .field => ""
  | .readonlyProperty => "\x7b get; \x7d"
  | .property => "\x7b get; set; \x7d"

theorem memberDeclaration_eq (hk : kind ≠ .field) (type member : Text) :
    memberDeclaration kind type member =
      "public ".text ++ (type ++ .char ' ' :: (member ++ .char ' ' :: accessorsCode kind)) := by
  cases kind with
  | field => exact absurd rfl hk
  | readonlyProperty => simp [memberDeclaration, accessorsCode, String.text]
  | property => simp [memberDeclaration, accessorsCode, String.text]

theorem accessors?_accessorsCode (hk : kind ≠ .field) (rest : Text) :
    PropertyDecl.accessors? (.char ' ' :: (accessorsCode kind ++ rest)) = some rest := by
  cases kind with
  | field => exact absurd rfl hk
  | readonlyProperty => rfl
  | property => rfl

theorem find?_memberDeclaration (hk : kind ≠ .field) (htn : type ≠ [])
    (ht : ∀ c ∈ type, isTypeChar c = true) (hmn : member ≠ [])
    (hm : ∀ c ∈ member, isWord c = true) {indent : Text} (hi : ∀ c ∈ indent, isBlank c = true)
    (rest : Text) :
    find? (indent ++ memberDeclaration kind type member ++ rest) =
      some ⟨"public", type, member, memberDeclaration kind type member⟩ := by
  have hhead := PropertyDecl.head?_public htn ht hmn hm (accessors?_accessorsCode hk rest)
  have htext : memberDeclaration kind type member ++ rest = "public ".text ++
      (type ++ .char ' ' :: (member ++ .char ' ' :: (accessorsCode kind ++ rest))) := by
    simp [memberDeclaration_eq hk]
  rw [← htext] at hhead
  rw [List.append_assoc, PropertyDecl.find?_blank_append hi, PropertyDecl.find?_of_head? hhead rfl]

/-- The property that is generated for a parameter is found again exactly if the parameter is
detectable. The constructors for its class then take it in, in each document that has it on a
line. -/
theorem generated_property_isFound_iff {raw : Text} {q : Parameter} (hq : q ∈ Parameter.parse raw)
    (hname : ∀ c ∈ q.name, isWord c = true) (hk : kind ≠ .field)
    (hi : ∀ c ∈ style.memberIndent s, isBlank c = true) :
    ((∃ statement, find? (generateMember kind q.type q.name s style).declaration =
        some ⟨"public", q.type, capitalize q.name, statement⟩) ↔ q.IsDetectable) ∧
      (q.IsDetectable → ∀ (d : Document) (n : Nat) (line : Text) (owner : ClassDecl),
        d.lines[n]? = some line →
        line ++ style.eol = (generateMember kind q.type q.name s style).declaration →
        d.enclosingClass n = some owner →
        d.TakesIn ⟨owner, "public", q.type, capitalize q.name, n,
          memberDeclaration kind q.type (capitalize q.name)⟩) := by
  obtain ⟨htn, hnn⟩ := Parameter.ne_nil_of_mem_parse hq
  have hdeclaration : (generateMember kind q.type q.name s style).declaration =
      style.memberIndent s ++ memberDeclaration kind q.type (capitalize q.name) ++ style.eol := by
    cases kind with
    | field => exact absurd rfl hk
    | readonlyProperty => rfl
    | property => rfl
  have hfound : q.IsDetectable → ∀ rest : Text,
      find? (style.memberIndent s ++ memberDeclaration kind q.type (capitalize q.name) ++ rest) =
        some ⟨"public", q.type, capitalize q.name,
          memberDeclaration kind q.type (capitalize q.name)⟩ :=
    fun h => find?_memberDeclaration hk htn h.1 (capitalize_ne_nil hnn)
      ((forall_isWord_capitalize_iff hname).mpr h.2) hi
  refine ⟨⟨?_, fun h => ⟨_, hdeclaration ▸ hfound h style.eol⟩⟩, ?_⟩
  · rintro ⟨statement, hfind⟩
    obtain ⟨htype, hcapital⟩ := PropertyDecl.forall_of_find? hfind
    exact ⟨htype, (forall_isWord_capitalize_iff hname).mp hcapital⟩
  · intro h d n line owner hline htext howner
    have hfind := hfound h []
    rw [List.append_nil, ← List.append_cancel_right (htext.trans hdeclaration)] at hfind
    exact Document.takesIn_of_find? hline hfind howner

/-- An array of generics with nullable arguments, and a letter whose capital is two letters. -/
theorem generated_property_isFound_iff_for_array :
    (∃ statement,
      find? (generateMember .readonlyProperty "List<int?>[]" "ßum" {} {}).declaration =
        some ⟨"public", "List<int?>[]", "SSum", statement⟩) ∧
      Document.TakesIn
        ⟨"public class B\n\x7b\n        public List<int?>[] SSum \x7b get; \x7d\n\x7d\n", none⟩
        ⟨⟨0, "B", "public", "public class B"⟩, "public", "List<int?>[]", "SSum", 2,
          "public List<int?>[] SSum \x7b get; \x7d"⟩ := by
  have hq : (⟨"List<int?>[]", "ßum"⟩ : Parameter) ∈ Parameter.parse "List<int?>[] ßum" := by
    decide +kernel
  have hdetectable : (⟨"List<int?>[]", "ßum"⟩ : Parameter).IsDetectable := by decide +kernel
  have hk : MemberKind.readonlyProperty ≠ .field := by decide
  have hi : ∀ c ∈ Style.memberIndent {} {}, isBlank c = true := by decide +kernel
  obtain ⟨hfound, htaken⟩ := generated_property_isFound_iff hq (by decide +kernel) hk hi
  refine ⟨hfound.mpr hdetectable, htaken hdetectable _ 2
    "        public List<int?>[] SSum \x7b get; \x7d" ⟨0, "B", "public", "public class B"⟩ ?_ ?_ ?_⟩
  · decide +kernel
  · decide +kernel
  · decide +kernel

/-- The detector has no comma among the characters of a type. -/
theorem generated_property_with_two_type_arguments_isLost :
    (⟨"Dictionary<int, string>", "map"⟩ : Parameter) ∈
        Parameter.parse "Dictionary<int, string> map" ∧
      (∀ c ∈ "map".text, isWord c = true) ∧
      ∀ kind : MemberKind, kind ≠ .field →
        find? (generateMember kind "Dictionary<int, string>" "map" {} {}).declaration = none := by
  refine ⟨by decide +kernel, by decide +kernel, fun kind hk => ?_⟩
  cases kind with
  | field => exact absurd rfl hk
  | readonlyProperty => decide +kernel
  | property => decide +kernel

end Codegen

end CSharpActions
