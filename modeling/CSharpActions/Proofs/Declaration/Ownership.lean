import CSharpActions.Proofs.Declaration.Lines

/-!
# Owners of properties

Properties are collected in one pass, which carries the class declared last from line to line. At
each line that class is the one which a search upwards from the line finds. So the properties of a
class are those that the lines have one by one, and they come in the order of their lines.
-/
namespace CSharpActions.Document

variable {d : Document} {name line : Text} {n : Nat} {p : PropertyDecl}

/-- A class on the line itself comes before those above it. -/
theorem lastClass_succ {lines : List Text} (h : lines[n]? = some line) :
    lastClass lines (n + 1) = (ClassDecl.find? line n).or (lastClass lines n) := by
  rw [lastClass, h, Option.bind_some]
  cases ClassDecl.find? line n <;> rfl

theorem enclosingClass_eq (h : n < d.lineCount) :
    d.enclosingClass n = lastClass d.lines (n + 1) := by
  rw [enclosingClass]
  congr 1
  omega

/-- The pass comes to each line with the class that is declared last above it. -/
theorem propertiesFrom_eq_filterMap (name : Text) (pre lines : List Text) :
    propertiesFrom name (lastClass (pre ++ lines) pre.length) pre.length lines =
      (List.range' pre.length lines.length).filterMap fun n =>
        ((pre ++ lines)[n]?).bind
          (propertyOn name (lastClass (pre ++ lines) (n + 1)) n) := by
  induction lines generalizing pre with
  | nil => rfl
  | cons l lines ih =>
    have hl : (pre ++ l :: lines)[pre.length]? = some l := by simp
    have hnext := ih (pre ++ [l])
    rw [List.append_assoc, List.singleton_append, List.length_append,
      List.length_singleton] at hnext
    rw [propertiesFrom_cons, ← lastClass_succ hl, hnext, List.length_cons, List.range'_succ,
      List.filterMap_cons, hl, Option.bind_some]
    cases propertyOn name (lastClass (pre ++ l :: lines) (pre.length + 1)) pre.length l <;> rfl

/-- The one pass finds what a search for the class of each line finds. -/
theorem propertiesOf_eq_filterMap (d : Document) (name : Text) :
    d.propertiesOf name = (List.range d.lineCount).filterMap fun n : Nat =>
      (d.lines[n]?).bind (propertyOn name (d.enclosingClass n) n) := by
  have hpass := propertiesFrom_eq_filterMap name [] d.lines
  rw [List.nil_append, List.length_nil, ← List.range_eq_range'] at hpass
  rw [propertiesOf]
  refine hpass.trans (List.filterMap_congr fun n hn => ?_)
  rw [enclosingClass_eq (List.mem_range.mp hn)]

theorem propertyOn_eq_some_iff {owner : Option ClassDecl} :
    propertyOn name owner n line = some p ↔
      PropertyDecl.find? line = some ⟨p.modifier, p.type, p.name, p.statement⟩ ∧
        owner = some p.owner ∧ p.owner.name = name ∧ p.lineNumber = n := by
  rw [propertyOn]
  constructor
  · intro h
    obtain ⟨found, hfound, h⟩ := Option.bind_eq_some_iff.mp h
    obtain ⟨c, hc, h⟩ := Option.bind_eq_some_iff.mp h
    split at h
    · rename_i hname
      obtain rfl := Option.some.inj h
      exact ⟨hfound, hc, hname, rfl⟩
    · simp at h
  · rintro ⟨hfound, rfl, hname, rfl⟩
    rw [hfound, Option.bind_some, Option.bind_some, if_pos hname]

/-- The properties of a class are collected in the order of their lines, so that sorting them by
line changes nothing: one for each line on which a property is found and above which, the line
included, the nearest class has that name. -/
theorem propertiesOf_agrees_with_lookup (d : Document) (owner : ClassDecl) :
    (d.propertiesOf owner.name).Pairwise (·.lineNumber < ·.lineNumber) ∧
      (∀ p, p ∈ d.propertiesOf owner.name ↔
        ∃ line, d.lines[p.lineNumber]? = some line ∧
          PropertyDecl.find? line = some ⟨p.modifier, p.type, p.name, p.statement⟩ ∧
          d.enclosingClass p.lineNumber = some p.owner ∧ p.owner.name = owner.name) ∧
      (d.propertiesOf owner.name).mergeSort (fun p q => p.lineNumber ≤ q.lineNumber) =
        d.propertiesOf owner.name := by
  have hpairwise := pairwise_propertiesFrom owner.name none 0 d.lines
  refine ⟨hpairwise, fun p => ?_, ?_⟩
  · rw [propertiesOf_eq_filterMap, List.mem_filterMap]
    constructor
    · rintro ⟨n, -, h⟩
      obtain ⟨line, hline, hp⟩ := Option.bind_eq_some_iff.mp h
      obtain ⟨hfound, howner, hname, rfl⟩ := propertyOn_eq_some_iff.mp hp
      exact ⟨line, hline, hfound, howner, hname⟩
    · rintro ⟨line, hline, hfound, howner, hname⟩
      have hlt : p.lineNumber < d.lineCount := (List.getElem?_eq_some_iff.mp hline).1
      refine ⟨p.lineNumber, List.mem_range.mpr hlt, Option.bind_eq_some_iff.mpr ⟨line, hline, ?_⟩⟩
      exact propertyOn_eq_some_iff.mpr ⟨hfound, howner, hname, rfl⟩
  · refine List.mergeSort_of_pairwise (hpairwise.imp fun h => ?_)
    exact decide_eq_true (Nat.le_of_lt h)

end CSharpActions.Document
