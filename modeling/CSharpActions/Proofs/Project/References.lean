import CSharpActions.Project.ProjectFile
import CSharpActions.Proofs.Text.Utf8
import Mathlib.Data.List.Forall2
import Mathlib.Data.Prod.Lex

/-!
# What the declarations of a project depend on

What a project file declares depends on the elements that count where they stand: the groups of a
project, the references and the root namespaces of the groups, and the versions of the references.
Neither their namespaces nor the elements around them matter. The references are listed in the order
of the document.
-/
namespace CSharpActions

open Xml (Element)

/-! ## Texts that are handed over -/

namespace Xml

/-- Only a text that cannot be encoded is not handed over. -/
theorem read_eq_unencodable_iff {text : Text} :
    read text = .error .unencodable ↔ ¬ Text.Utf8.Encodable text := by
  unfold read
  constructor
  · intro h henc
    obtain ⟨bytes, hb⟩ := henc.exists_bytes
    rw [hb] at h
    dsimp only at h
    split at h <;> simp at h
  · intro h
    rw [Text.Utf8.encode?_eq_none h]

/-- Texts that can be encoded are handed over, whatever else the parser makes of them. -/
def TakesEncodable (parser : Parser) : Prop :=
  ∀ text, Text.Utf8.Encodable text → parser text ≠ .error .unencodable

end Xml

namespace ProjectFile

/-! ## Elements that do not count -/

/-- The names of the children that count under an element with the given name. -/
def relevant (parent : Text) : List Text :=
  if parent = "Project" then ["ItemGroup", "PropertyGroup"]
  else if parent = "ItemGroup" then ["PackageReference", "ProjectReference"]
  else if parent = "PropertyGroup" then ["RootNamespace"]
  else if parent = "PackageReference" then ["Version"]
  else []

/-- The names of the elements whose text counts. -/
def textual : List Text := ["Version", "RootNamespace"]

mutual

/-- The second tree comes from the first by other namespaces of the elements, by new elements whose
names do not count where they stand, and by other texts in front of the children of elements whose
text does not count. -/
inductive Padded : Element → Element → Prop
  | mk {name name' : Xml.Name} {attributes : List (Xml.Name × Text)} {text text' : Text}
      {children children' : List Element} (local_eq : name'.name = name.name)
      (text_eq : name.name ∈ textual → text' = text)
      (inserted : Inserted name.name children children') :
      Padded (.mk name attributes text children) (.mk name' attributes text' children')

/-- The same for the children of an element with the given name. -/
inductive Inserted : Text → List Element → List Element → Prop
  | nil {parent : Text} : Inserted parent [] []
  | keep {parent : Text} {e e' : Element} {es es' : List Element} (same : Padded e e')
      (rest : Inserted parent es es') : Inserted parent (e :: es) (e' :: es')
  | insert {parent : Text} {e : Element} {es es' : List Element}
      (other : e.localName ∉ relevant parent) (rest : Inserted parent es es') :
      Inserted parent es (e :: es')

end

namespace Padded

variable {e e' : Element}

theorem localName_eq (h : Padded e e') : e'.localName = e.localName := by
  cases h with
  | mk local_eq _ _ => exact local_eq

theorem attribute?_eq (h : Padded e e') (name : Text) : e'.attribute? name = e.attribute? name := by
  cases h
  rfl

theorem text_eq (h : Padded e e') (ht : e.localName ∈ textual) : e'.text = e.text := by
  cases h with
  | mk _ text_eq _ => exact text_eq ht

end Padded

variable {e e' : Element} {name parent : Text}

theorem Inserted.forall₂_filter (hn : name ∈ relevant parent) :
    ∀ {es es' : List Element}, Inserted parent es es' →
      List.Forall₂ Padded (es.filter (·.localName = name)) (es'.filter (·.localName = name))
  | _, _, .nil => .nil
  | _, _, .keep same rest => by
    have ih := rest.forall₂_filter hn
    rw [List.filter_cons, List.filter_cons, same.localName_eq]
    split
    · exact .cons same ih
    · exact ih
  | _, _, .insert other rest => by
    rw [List.filter_cons_of_neg]
    · exact rest.forall₂_filter hn
    · intro h
      rw [of_decide_eq_true h] at other
      exact other hn

/-- The children that count are the same but for what is put around and into them. -/
theorem Padded.forall₂_childrenNamed (h : Padded e e') (hn : name ∈ relevant e.localName) :
    List.Forall₂ (fun a b => a.localName = name ∧ Padded a b) (e.childrenNamed name)
      (e'.childrenNamed name) := by
  refine (List.forall₂_and_left _ _).mpr ⟨fun a ha => by simpa using (List.mem_filter.mp ha).2, ?_⟩
  cases h with
  | mk _ _ inserted => exact inserted.forall₂_filter hn

/-! ## What is declared -/

theorem Padded.version_eq (h : Padded e e') (hn : e.localName = "PackageReference") :
    version e' = version e := by
  have hrelevant : "Version".text ∈ relevant e.localName := by rw [hn]; decide
  have hc := h.forall₂_childrenNamed hrelevant
  rw [version, version, h.attribute?_eq]
  generalize e.childrenNamed "Version" = vs at hc ⊢
  generalize e'.childrenNamed "Version" = vs' at hc ⊢
  cases hc with
  | nil => rfl
  | cons same _ => simp only [same.2.text_eq (by rw [same.1]; decide)]

theorem Padded.forall₂_items (h : Padded e e') (hp : e.localName = "Project") (kind : Text)
    (hk : kind ∈ relevant "ItemGroup") :
    List.Forall₂ (fun a b => b.1 = a.1 ∧ a.2.localName = kind ∧ Padded a.2 b.2)
      (items kind e) (items kind e') := by
  have hrelevant : "ItemGroup".text ∈ relevant e.localName := by rw [hp]; decide
  have hg := h.forall₂_childrenNamed hrelevant
  refine List.rel_flatMap hg ?_
  rintro g g' ⟨hg, hgg⟩
  refine List.rel_filterMap ?_ (hgg.forall₂_childrenNamed (hg ▸ hk))
  rintro a b ⟨ha, hab⟩
  dsimp only
  rw [hab.attribute?_eq]
  cases a.attribute? "Include" with
  | none => exact .none
  | some includes =>
    dsimp only
    split
    · exact .none
    · exact .some ⟨rfl, ha, hab⟩

/-- What is taken from each item is the same if it depends on nothing else. -/
theorem Padded.map_items_eq {α : Type} {f : Text × Element → α} (h : Padded e e')
    (hp : e.localName = "Project") (kind : Text) (hk : kind ∈ relevant "ItemGroup")
    (hf : ∀ name a b, a.localName = kind → Padded a b → f (name, b) = f (name, a)) :
    (items kind e').map f = (items kind e).map f := by
  have hitems := h.forall₂_items hp kind hk
  generalize items kind e = es at hitems ⊢
  generalize items kind e' = es' at hitems ⊢
  induction hitems with
  | nil => rfl
  | @cons a b _ _ hab _ ih =>
    obtain ⟨name, x⟩ := a
    obtain ⟨_, x'⟩ := b
    obtain ⟨rfl, hkind, hab⟩ := hab
    rw [List.map_cons, List.map_cons, ih, hf _ x x' hkind hab]

theorem Padded.packagesOf_eq (h : Padded e e') (hp : e.localName = "Project") :
    packagesOf e' = packagesOf e := by
  refine h.map_items_eq hp "PackageReference" (by decide) fun name a b hkind hab => ?_
  simp only [hab.version_eq hkind]

theorem Padded.projectsOf_eq (h : Padded e e') (hp : e.localName = "Project") :
    projectsOf e' = projectsOf e :=
  h.map_items_eq hp "ProjectReference" (by decide) fun _ _ _ _ _ => rfl

theorem Padded.rootNamespaceOf_eq (h : Padded e e') (hp : e.localName = "Project") :
    rootNamespaceOf e' = rootNamespaceOf e := by
  have hrelevant : "PropertyGroup".text ∈ relevant e.localName := by rw [hp]; decide
  have hg := h.forall₂_childrenNamed hrelevant
  have hnames : List.Forall₂ (fun a b => a.localName = "RootNamespace".text ∧ Padded a b)
      ((e.childrenNamed "PropertyGroup").flatMap (·.childrenNamed "RootNamespace"))
      ((e'.childrenNamed "PropertyGroup").flatMap (·.childrenNamed "RootNamespace")) := by
    refine List.rel_flatMap hg ?_
    rintro g g' ⟨hg, hgg⟩
    exact hgg.forall₂_childrenNamed (by rw [hg]; decide)
  rw [rootNamespaceOf, rootNamespaceOf]
  generalize (e.childrenNamed "PropertyGroup").flatMap _ = es at hnames ⊢
  generalize (e'.childrenNamed "PropertyGroup").flatMap _ = es' at hnames ⊢
  cases hnames with
  | nil => rfl
  | cons same _ => simp only [same.2.text_eq (by rw [same.1]; decide)]

/-- Neither namespaces nor elements that do not count have an influence on what is declared. -/
theorem Padded.ofRoot_eq (h : Padded e e') : ofRoot e' = ofRoot e := by
  rw [ofRoot, ofRoot, h.localName_eq]
  split
  · rename_i hp
    rw [ofProject, ofProject, h.packagesOf_eq hp, h.projectsOf_eq hp, h.rootNamespaceOf_eq hp]
  · rfl

/-! ## The order of the references -/

/-- The element is an entry of the kind that includes something, at a place in the project: a child
by its number of an item group by its number. -/
structure IsEntry (kind : Text) (root : Element) (place : Nat × Nat) (e : Element) : Prop where
  isProject : root.localName = "Project"
  isChild : ∃ group, root.children[place.1]? = some group ∧ group.localName = "ItemGroup" ∧
    group.children[place.2]? = some e
  localName_eq : e.localName = kind
  includes : ∃ name, e.attribute? "Include" = some name ∧ name ≠ []

/-- The list has one member for each entry of the kind, related to it by `R`, in the order of the
document. -/
def InOrder {α : Type} (kind : Text) (root : Element) (R : Element → α → Prop) (as : List α) :
    Prop :=
  ∃ places : List (Nat × Nat), places.Pairwise (Prod.Lex (· < ·) (· < ·)) ∧
    (∀ p, p ∈ places ↔ ∃ e, IsEntry kind root p e) ∧
    List.Forall₂ (fun p a => ∃ e, IsEntry kind root p e ∧ R e a) places as

/-- What is picked from the children of the groups with a name, with their places. -/
def placed {α : Type} (group : Text) (pick : Element → Option α) (root : Element) :
    List ((Nat × Nat) × α) :=
  root.children.zipIdx.flatMap fun g =>
    if g.1.localName = group then
      g.1.children.zipIdx.filterMap fun c => (pick c.1).map ((g.2, c.2), ·)
    else []

section

variable {α : Type} {group : Text} {pick : Element → Option α} {root : Element}

/-- Without their places, they are picked group by group. -/
theorem map_placed (group : Text) (pick : Element → Option α) (root : Element) :
    (placed group pick root).map (·.2) =
      (root.childrenNamed group).flatMap (·.children.filterMap pick) := by
  have hgroup : ∀ g : Element × Nat,
      (if g.1.localName = group then
        g.1.children.zipIdx.filterMap fun c => (pick c.1).map ((g.2, c.2), ·)
      else []).map (·.2) =
        if g.1.localName = group then g.1.children.filterMap pick else [] := by
    intro g
    have hchildren : g.1.children.filterMap pick =
        g.1.children.zipIdx.filterMap fun c => pick c.1 := by
      conv_lhs => rw [← List.zipIdx_map_fst 0 g.1.children, List.filterMap_map]
      rfl
    split
    · rw [hchildren, List.map_filterMap]
      simp [Function.comp_def]
    · rfl
  rw [placed, List.map_flatMap, Element.childrenNamed]
  simp only [hgroup]
  -- only the groups are left, whose numbers no longer matter
  generalize 0 = start
  induction root.children generalizing start with
  | nil => rfl
  | cons g gs ih =>
    rw [List.zipIdx_cons, List.flatMap_cons, ih, List.filter_cons]
    by_cases hg : g.localName = group
    · simp [hg]
    · simp [hg]

theorem mem_placed {p : Nat × Nat} {a : α} : (p, a) ∈ placed group pick root ↔
    ∃ g e, root.children[p.1]? = some g ∧ g.localName = group ∧ g.children[p.2]? = some e ∧
      pick e = some a := by
  rw [placed, List.mem_flatMap]
  constructor
  · rintro ⟨⟨g, i⟩, hg, hp⟩
    split at hp
    · rename_i hgroup
      obtain ⟨⟨e, j⟩, hc, hp⟩ := List.mem_filterMap.mp hp
      obtain ⟨b, hb, hp⟩ := Option.map_eq_some_iff.mp hp
      obtain ⟨rfl, rfl⟩ := Prod.mk.inj hp
      exact ⟨g, e, List.mem_zipIdx_iff_getElem?.mp hg, hgroup,
        List.mem_zipIdx_iff_getElem?.mp hc, hb⟩
    · simp at hp
  · rintro ⟨g, e, hg, hgroup, hc, he⟩
    refine ⟨(g, p.1), List.mem_zipIdx_iff_getElem?.mpr hg, ?_⟩
    rw [if_pos hgroup, List.mem_filterMap]
    exact ⟨(e, p.2), List.mem_zipIdx_iff_getElem?.mpr hc, by simp [he]⟩

theorem pairwise_zipIdx (l : List α) : l.zipIdx.Pairwise fun a b => a.2 < b.2 := by
  rw [← List.pairwise_map (f := Prod.snd) (R := (· < ·)), List.zipIdx_map_snd]
  exact List.pairwise_lt_range'

theorem pairwise_placed (group : Text) (pick : Element → Option α) (root : Element) :
    (placed group pick root).Pairwise fun a b => Prod.Lex (· < ·) (· < ·) a.1 b.1 := by
  rw [placed, List.pairwise_flatMap]
  constructor
  · rintro ⟨g, i⟩ -
    split
    · refine List.pairwise_filterMap.mpr ((pairwise_zipIdx g.children).imp ?_)
      intro c d hcd x hx y hy
      obtain ⟨_, -, rfl⟩ := Option.map_eq_some_iff.mp hx
      obtain ⟨_, -, rfl⟩ := Option.map_eq_some_iff.mp hy
      exact Prod.Lex.right _ hcd
    · exact .nil
  · refine (pairwise_zipIdx root.children).imp ?_
    intro g h hgh x hx y hy
    have hplace : ∀ {g : Element × Nat} {x : (Nat × Nat) × α},
        x ∈ (if g.1.localName = group then
          g.1.children.zipIdx.filterMap fun c => (pick c.1).map ((g.2, c.2), ·) else []) →
          x.1.1 = g.2 := by
      intro g x hx
      split at hx
      · obtain ⟨c, -, hx⟩ := List.mem_filterMap.mp hx
        obtain ⟨_, -, rfl⟩ := Option.map_eq_some_iff.mp hx
        rfl
      · simp at hx
    exact Prod.lex_def.mpr (Or.inl (by rwa [hplace hx, hplace hy]))

end

/-- What an element of the kind includes, if that is something. -/
def listed? (kind : Text) (e : Element) : Option (Text × Element) :=
  if e.localName = kind then ((e.attribute? "Include").filter (!·.isEmpty)).map (·, e) else none

variable {kind : Text} {root : Element}

theorem listed?_eq_some_iff {item : Text × Element} : listed? kind e = some item ↔
    e.localName = kind ∧ e.attribute? "Include" = some item.1 ∧ item.1 ≠ [] ∧ e = item.2 := by
  obtain ⟨includes, e'⟩ := item
  rw [listed?]
  split
  · simp [Option.filter_eq_some_iff, and_assoc, *]
  · simp [*]

theorem items_eq (kind : Text) (root : Element) :
    items kind root = (placed "ItemGroup" (listed? kind) root).map (·.2) := by
  rw [items, map_placed]
  congr 1
  funext group
  rw [Element.childrenNamed, List.filterMap_filter]
  congr 1
  funext e
  rw [listed?]
  cases e.attribute? "Include" with
  | none => simp
  | some includes => cases includes <;> simp [Option.filter]

theorem inOrder_items {α : Type} {R : Element → α → Prop} {f : Text × Element → α}
    (hp : root.localName = "Project")
    (hf : ∀ e includes, e.localName = kind → e.attribute? "Include" = some includes →
      R e (f (includes, e))) : InOrder kind root R ((items kind root).map f) := by
  have hentry : ∀ x ∈ placed "ItemGroup" (listed? kind) root,
      IsEntry kind root x.1 x.2.2 ∧ R x.2.2 (f x.2) := by
    rintro ⟨p, includes, e⟩ hx
    obtain ⟨group, e', hg, hgroup, hc, he⟩ := mem_placed.mp hx
    obtain ⟨hk, hi, hne, rfl⟩ := listed?_eq_some_iff.mp he
    exact ⟨⟨hp, ⟨group, hg, hgroup, hc⟩, hk, includes, hi, hne⟩, hf e' includes hk hi⟩
  refine ⟨(placed "ItemGroup" (listed? kind) root).map (·.1), ?_, ?_, ?_⟩
  · exact List.pairwise_map.mpr (pairwise_placed "ItemGroup" (listed? kind) root)
  · intro p
    rw [List.mem_map]
    constructor
    · rintro ⟨x, hx, rfl⟩
      exact ⟨x.2.2, (hentry x hx).1⟩
    · rintro ⟨e, -, ⟨group, hg, hgroup, hc⟩, hk, includes, hi, hne⟩
      exact ⟨(p, includes, e), mem_placed.mpr ⟨group, e, hg, hgroup, hc,
        listed?_eq_some_iff.mpr ⟨hk, hi, hne, rfl⟩⟩, rfl⟩
  · rw [items_eq, List.map_map, List.forall₂_map_left_iff, List.forall₂_map_right_iff,
      List.forall₂_same]
    exact fun x hx => ⟨x.2.2, hentry x hx⟩

theorem inOrder_nil {α : Type} {R : Element → α → Prop} (hp : root.localName ≠ "Project") :
    InOrder kind root R [] :=
  ⟨[], .nil, fun _ => ⟨fun h => absurd h List.not_mem_nil, fun ⟨_, h⟩ => absurd h.isProject hp⟩,
    .nil⟩

/-! ## Where versions and the root namespace stand -/

/-- The child is the first with the given name. -/
def IsFirstNamed (name : Text) (e child : Element) : Prop :=
  ∃ before after, e.children = before ++ child :: after ∧ child.localName = name ∧
    ∀ x ∈ before, x.localName ≠ name

/-- Where the version of a reference comes from: its attribute, or else the text of its first nested
element, unless that is empty. -/
inductive HasVersion (e : Element) : Option Text → Prop
  | attribute {v : Text} (given : e.attribute? "Version" = some v) : HasVersion e (some v)
  | nested {child : Element} (absent : e.attribute? "Version" = none)
      (first : IsFirstNamed "Version" e child) (filled : child.text ≠ []) :
      HasVersion e (some (Text.trim child.text))
  | none (absent : e.attribute? "Version" = none)
      (empty : ∀ child, IsFirstNamed "Version" e child → child.text = []) : HasVersion e none

theorem isFirstNamed_iff {child : Element} : IsFirstNamed name e child ↔
    ∃ rest, e.childrenNamed name = child :: rest := by
  simp only [IsFirstNamed, Element.childrenNamed, List.filter_eq_cons_iff, decide_eq_true_eq]
  constructor
  · rintro ⟨before, after, h, hname, hbefore⟩
    exact ⟨_, before, after, h, hbefore, hname, rfl⟩
  · rintro ⟨_, before, after, h, hbefore, hname, rfl⟩
    exact ⟨before, after, h, hname, hbefore⟩

theorem hasVersion_version (e : Element) : HasVersion e (version e) := by
  rw [version]
  cases ha : e.attribute? "Version" with
  | some v => exact .attribute ha
  | none =>
    cases hv : e.childrenNamed "Version" with
    | nil =>
      refine .none ha fun child hfirst => ?_
      obtain ⟨rest, h⟩ := isFirstNamed_iff.mp hfirst
      simp [hv] at h
    | cons child rest =>
      dsimp only
      split
      · rename_i hempty
        refine .none ha fun child' hfirst => ?_
        obtain ⟨rest', h⟩ := isFirstNamed_iff.mp hfirst
        obtain ⟨rfl, -⟩ := List.cons.inj (hv.symm.trans h)
        exact List.isEmpty_iff.mp hempty
      · rename_i hempty
        exact .nested ha (isFirstNamed_iff.mpr ⟨rest, hv⟩) (mt List.isEmpty_iff.mpr hempty)

/-- The element is the first root namespace of all property groups, in the order of the document:
a child by its number of a group by its number. -/
structure IsFirstNamespace (root e : Element) (place : Nat × Nat) : Prop where
  isChild : ∃ group, root.children[place.1]? = some group ∧ group.localName = "PropertyGroup" ∧
    group.children[place.2]? = some e
  localName_eq : e.localName = "RootNamespace"
  isFirst : ∀ (p : Nat × Nat) (group e' : Element), root.children[p.1]? = some group →
    group.localName = "PropertyGroup" → group.children[p.2]? = some e' →
    e'.localName = "RootNamespace" → p = place ∨ Prod.Lex (· < ·) (· < ·) place p

/-- Where the root namespace of a project comes from: its first root namespace, without the blanks
around it, unless nothing is left. -/
inductive HasRootNamespace (root : Element) : Option Text → Prop
  | declared {e : Element} {place : Nat × Nat} (isProject : root.localName = "Project")
      (first : IsFirstNamespace root e place) (filled : Text.trim e.text ≠ []) :
      HasRootNamespace root (some (Text.trim e.text))
  | none (blank : root.localName = "Project" → ∀ e place, IsFirstNamespace root e place →
      Text.trim e.text = []) : HasRootNamespace root none

/-- The element itself, if it has the name. -/
def named? (name : Text) (e : Element) : Option Element :=
  if e.localName = name then some e else none

theorem childrenNamed_eq (e : Element) (name : Text) :
    e.childrenNamed name = e.children.filterMap (named? name) := by
  rw [Element.childrenNamed, ← List.filterMap_eq_filter]
  congr 1
  funext c
  simp [named?, Option.guard]

theorem namespaces_eq (root : Element) :
    (root.childrenNamed "PropertyGroup").flatMap (·.childrenNamed "RootNamespace") =
      (placed "PropertyGroup" (named? "RootNamespace") root).map (·.2) := by
  rw [map_placed]
  congr 1
  funext group
  exact childrenNamed_eq group _

theorem isFirstNamespace_iff {place : Nat × Nat} : IsFirstNamespace root e place ↔
    ∃ rest, placed "PropertyGroup" (named? "RootNamespace") root = (place, e) :: rest := by
  have hmem : ∀ {p : Nat × Nat} {x : Element},
      (p, x) ∈ placed "PropertyGroup" (named? "RootNamespace") root ↔
        (∃ group, root.children[p.1]? = some group ∧ group.localName = "PropertyGroup" ∧
          group.children[p.2]? = some x) ∧ x.localName = "RootNamespace" := by
    intro p x
    rw [mem_placed]
    simp only [named?, Option.ite_none_right_eq_some, Option.some.injEq]
    constructor
    · rintro ⟨group, x', hg, hgroup, hc, hname, rfl⟩
      exact ⟨⟨group, hg, hgroup, hc⟩, hname⟩
    · rintro ⟨⟨group, hg, hgroup, hc⟩, hname⟩
      exact ⟨group, x, hg, hgroup, hc, hname, rfl⟩
  have hsorted := pairwise_placed "PropertyGroup" (named? "RootNamespace") root
  generalize placed "PropertyGroup" (named? "RootNamespace") root = l at hmem hsorted
  constructor
  · rintro ⟨hchild, hname, hfirst⟩
    cases l with
    | nil => exact absurd (hmem.mpr ⟨hchild, hname⟩) List.not_mem_nil
    | cons head rest =>
      -- what stands before all others is the head
      rcases List.mem_cons.mp (hmem.mpr ⟨hchild, hname⟩) with heq | hrest
      · exact ⟨rest, by rw [heq]⟩
      · have hlt := List.rel_of_pairwise_cons hsorted hrest
        obtain ⟨⟨group, hg, hgroup, hc⟩, hn⟩ := hmem.mp (List.mem_cons_self (a := head) (l := rest))
        rcases hfirst head.1 group head.2 hg hgroup hc hn with heq | hgt
        · rw [heq] at hlt
          exact absurd hlt (irrefl _)
        · exact absurd (Trans.trans hlt hgt) (irrefl _)
  · rintro ⟨rest, rfl⟩
    obtain ⟨hchild, hname⟩ := hmem.mp List.mem_cons_self
    refine ⟨hchild, hname, fun p group e' hg hgroup hc hn => ?_⟩
    rcases List.mem_cons.mp (hmem.mpr ⟨⟨group, hg, hgroup, hc⟩, hn⟩) with heq | hrest
    · exact Or.inl (Prod.mk.inj heq).1
    · exact Or.inr (List.rel_of_pairwise_cons hsorted hrest)

theorem hasRootNamespace_ofRoot (root : Element) :
    HasRootNamespace root (ofRoot root).rootNamespace := by
  rw [ofRoot]
  split
  · rename_i hp
    dsimp only [ofProject]
    rw [rootNamespaceOf, namespaces_eq]
    cases hl : placed "PropertyGroup" (named? "RootNamespace") root with
    | nil =>
      refine .none fun _ e place hfirst => ?_
      obtain ⟨rest, h⟩ := isFirstNamespace_iff.mp hfirst
      simp [hl] at h
    | cons head rest =>
      have hfirst : IsFirstNamespace root head.2 head.1 := isFirstNamespace_iff.mpr ⟨rest, hl⟩
      rw [List.map_cons]
      dsimp only
      split
      · rename_i hblank
        refine .none fun _ e place hfirst' => ?_
        obtain ⟨rest', h⟩ := isFirstNamespace_iff.mp hfirst'
        obtain ⟨rfl, -⟩ := List.cons.inj (hl.symm.trans h)
        exact List.isEmpty_iff.mp hblank
      · rename_i hblank
        exact .declared hp hfirst (mt List.isEmpty_iff.mpr hblank)
  · rename_i hp
    exact .none fun h => absurd h hp

/-! ## The references of a project -/

theorem inOrder_packages (root : Element) : InOrder "PackageReference" root
    (fun e r => e.attribute? "Include" = some r.name ∧ HasVersion e r.version)
    (ofRoot root).packages := by
  rw [ofRoot]
  split
  · rename_i hp
    exact inOrder_items hp fun e _ _ hi => ⟨hi, hasVersion_version e⟩
  · rename_i hp
    exact inOrder_nil hp

theorem inOrder_projects (root : Element) : InOrder "ProjectReference" root
    (fun e name => e.attribute? "Include" = some name) (ofRoot root).projects := by
  rw [ofRoot]
  split
  · rename_i hp
    exact inOrder_items hp fun _ _ _ hi => hi
  · rename_i hp
    exact inOrder_nil hp

end ProjectFile

end CSharpActions
