import CSharpActions.Proofs.Declaration.Detection

/-!
# Properties over lines

What a search for properties carries from line to line is the class declared last, and what it says
depends on that class by its name only. So lines that declare nothing may stand anywhere: the
properties below them are the same, further down.
-/
namespace CSharpActions

/-- The second property is the first one, `k` lines further down; its class may be another one. -/
structure PropertyDecl.Moves (k : Nat) (p q : PropertyDecl) : Prop where
  modifier_eq : q.modifier = p.modifier
  type_eq : q.type = p.type
  name_eq : q.name = p.name
  statement_eq : q.statement = p.statement
  lineNumber_eq : q.lineNumber = p.lineNumber + k

/-- The number of a line is all that a class has from it besides its text. -/
theorem ClassDecl.find?_number (line : Text) (n m : Int) :
    find? line m = (find? line n).map ({ · with startLine := m }) := by
  rw [find?, find?, Option.map_map]
  rfl

namespace Document

variable {name line : Text} {current current' : Option ClassDecl} {n k : Nat} {xs ys : List Text}

/-- The property on a line, if it has one of a class with the given name. -/
def propertyOn (name : Text) (owner : Option ClassDecl) (n : Nat) (line : Text) :
    Option PropertyDecl :=
  (PropertyDecl.find? line).bind fun p => owner.bind fun owner =>
    if owner.name = name then
      some { owner, modifier := p.modifier, type := p.type, name := p.name, lineNumber := n,
             statement := p.statement }
    else none

/-- The class declared last on lines, or the one from above. -/
def classBelow (current : Option ClassDecl) (n : Nat) : List Text → Option ClassDecl
  | [] => current
  | l :: r => classBelow ((ClassDecl.find? l n).or current) (n + 1) r

theorem propertiesFrom_cons (name : Text) (current : Option ClassDecl) (n : Nat) (l : Text)
    (r : List Text) :
    propertiesFrom name current n (l :: r) =
      (propertyOn name ((ClassDecl.find? l n).or current) n l).toList ++
        propertiesFrom name ((ClassDecl.find? l n).or current) (n + 1) r := by
  rw [propertiesFrom, propertyOn]
  cases PropertyDecl.find? l with
  | none => rfl
  | some p =>
    cases (ClassDecl.find? l n).or current with
    | none => rfl
    | some owner =>
      dsimp only [Option.bind_some]
      split <;> rfl

theorem propertiesFrom_append (xs ys : List Text) :
    propertiesFrom name current n (xs ++ ys) =
      propertiesFrom name current n xs ++
        propertiesFrom name (classBelow current n xs) (n + xs.length) ys := by
  induction xs generalizing current n with
  | nil => rfl
  | cons l xs ih =>
    have hlen : n + (l :: xs).length = n + 1 + xs.length := by
      rw [List.length_cons]
      omega
    rw [List.cons_append, propertiesFrom_cons, propertiesFrom_cons, ih, List.append_assoc,
      classBelow, hlen]

/-- Lines that declare nothing have no properties and leave the class as it is. -/
theorem propertiesFrom_of_undetected (name : Text) (current : Option ClassDecl) (n : Nat)
    (h : ∀ l ∈ xs, Undetected l) :
    propertiesFrom name current n xs = [] ∧ classBelow current n xs = current := by
  induction xs generalizing n with
  | nil => exact ⟨rfl, rfl⟩
  | cons l xs ih =>
    obtain ⟨⟨hclass, hproperty⟩, hxs⟩ := List.forall_mem_cons.mp h
    obtain ⟨hnil, hbelow⟩ := ih (n + 1) hxs
    rw [propertiesFrom_cons, classBelow, hclass, Option.none_or, propertyOn, hproperty]
    exact ⟨hnil, hbelow⟩

theorem forall₂_propertyOn (hc : current'.map (·.name) = current.map (·.name)) :
    List.Forall₂ (PropertyDecl.Moves k) (propertyOn name current n line).toList
      (propertyOn name current' (n + k) line).toList := by
  unfold propertyOn
  cases PropertyDecl.find? line with
  | none => exact .nil
  | some p =>
    cases current with
    | none =>
      obtain rfl : current' = none := by simpa using hc
      exact .nil
    | some owner =>
      obtain ⟨owner', rfl, hname⟩ : ∃ o, current' = some o ∧ o.name = owner.name := by
        simpa using hc
      simp only [Option.bind_some, hname]
      split
      · exact .cons ⟨rfl, rfl, rfl, rfl, rfl⟩ .nil
      · exact .nil

/-- Further down, and below a class of the same name, lines have the same properties. -/
theorem forall₂_propertiesFrom (hc : current'.map (·.name) = current.map (·.name)) :
    List.Forall₂ (PropertyDecl.Moves k) (propertiesFrom name current n xs)
      (propertiesFrom name current' (n + k) xs) := by
  induction xs generalizing current current' n with
  | nil => exact .nil
  | cons l xs ih =>
    have howner : ((ClassDecl.find? l (n + k : Nat)).or current').map (·.name) =
        ((ClassDecl.find? l n).or current).map (·.name) := by
      rw [ClassDecl.find?_number l n]
      cases ClassDecl.find? l n with
      | none => exact hc
      | some decl => rfl
    have hrest := ih (n := n + 1) howner
    rw [Nat.add_right_comm] at hrest
    rw [propertiesFrom_cons, propertiesFrom_cons]
    exact List.rel_append (forall₂_propertyOn howner) hrest

/-- Properties are found in the order of their lines. -/
theorem pairwise_propertiesFrom (name : Text) (current : Option ClassDecl) (n : Nat)
    (xs : List Text) :
    (propertiesFrom name current n xs).Pairwise (·.lineNumber < ·.lineNumber) := by
  induction xs generalizing current n with
  | nil => exact .nil
  | cons l xs ih =>
    rw [propertiesFrom_cons, List.pairwise_append]
    refine ⟨?_, ih _ _, fun p hp q hq => ?_⟩
    · cases propertyOn name ((ClassDecl.find? l n).or current) n l with
      | none => exact .nil
      | some p => exact List.pairwise_singleton _ p
    · have hn : p.lineNumber = n := by
        rw [Option.mem_toList, propertyOn, Option.bind_eq_some_iff] at hp
        obtain ⟨found, -, hp⟩ := hp
        obtain ⟨owner, -, hp⟩ := Option.bind_eq_some_iff.mp hp
        split at hp
        · rw [← Option.some.inj hp]
        · simp at hp
      have hle := (exists_of_mem_propertiesFrom hq).1
      omega

/-- Indentation has no part in what lines declare. -/
theorem propertiesFrom_congr
    (h : ys.map (·.dropWhile isIndent) = xs.map (·.dropWhile isIndent)) :
    propertiesFrom name current n ys = propertiesFrom name current n xs := by
  induction xs generalizing ys current n with
  | nil => rw [List.map_eq_nil_iff.mp h]
  | cons x xs ih =>
    obtain ⟨y, ys, rfl, hy, hys⟩ := List.map_eq_cons_iff.mp h
    have hclass : ClassDecl.find? y n = ClassDecl.find? x n := by
      rw [← ClassDecl.find?_dropWhile, hy, ClassDecl.find?_dropWhile]
    have hproperty : PropertyDecl.find? y = PropertyDecl.find? x := by
      rw [← PropertyDecl.find?_dropWhile, hy, PropertyDecl.find?_dropWhile]
    rw [propertiesFrom_cons, propertiesFrom_cons, hclass, ih hys, propertyOn, hproperty, propertyOn]

/-- Lines that declare nothing may be put above the first property of a class. -/
theorem forall₂_propertiesFrom_insert {new : List Text} (hnew : ∀ l ∈ new, Undetected l)
    (hpre : ∀ q ∈ propertiesFrom name none 0 (xs ++ ys), xs.length ≤ q.lineNumber) :
    List.Forall₂ (PropertyDecl.Moves new.length) (propertiesFrom name none 0 (xs ++ ys))
      (propertiesFrom name none 0 (xs ++ (new ++ ys))) := by
  rw [propertiesFrom_append] at hpre
  have hnil : propertiesFrom name none 0 xs = [] := by
    refine List.eq_nil_iff_forall_not_mem.mpr fun q hq => ?_
    have hle := hpre q (List.mem_append_left _ hq)
    obtain ⟨-, hlt, -⟩ := exists_of_mem_propertiesFrom hq
    omega
  obtain ⟨hnone, hsame⟩ := propertiesFrom_of_undetected name (classBelow none 0 xs)
    (0 + xs.length) hnew
  rw [propertiesFrom_append, propertiesFrom_append, propertiesFrom_append, hnil, hnone, hsame]
  exact forall₂_propertiesFrom rfl

end Document

end CSharpActions
