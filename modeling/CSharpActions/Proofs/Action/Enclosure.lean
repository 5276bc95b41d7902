import CSharpActions.Proofs.Action.Execution
import CSharpActions.Proofs.Declaration.Ownership

/-!
# Constructors in their classes

A constructor goes in front of the line of the first property of its class. That property belongs to
the class declared nearest above, its own line included. So the constructor comes below the
declaration of the class, unless the class is declared on the line of the property.
-/
namespace CSharpActions

/-- What a declaration says stands on its line. -/
theorem ClassDecl.exists_statement {line : Text} {n : Int} {c : ClassDecl}
    (h : find? line n = some c) : ∃ x y, line = x ++ (c.statement ++ y) := by
  obtain ⟨⟨i, head⟩, -, rfl⟩ := Option.map_eq_some_iff.mp h
  exact ⟨line.take i, (line.drop i).drop (line.length - i - head.rest.length),
    by rw [List.take_append_drop, List.take_append_drop]⟩

theorem ClassDecl.find?_eq_none_iff {line : Text} {n : Int} (m : Int) :
    find? line n = none ↔ find? line m = none := by
  rw [find?_number line n m, Option.map_eq_none_iff]

namespace Document

variable {d : Document} {p : Position} {s : Settings} {c : ClassDecl} {name : Text}

/-- The offset is the beginning of a line below the declaration of a class with the name, and no
class is declared on the lines between. -/
def IsBelowClass (d : Document) (name : Text) (o : Nat) : Prop :=
  ∃ above line between below decl, Line.Reads d.text (above ++ line :: (between ++ below)) ∧
    below ≠ [] ∧ ClassDecl.find? line.content above.length = some decl ∧ decl.name = name ∧
    (∀ l ∈ between, ∀ n, ClassDecl.find? l.content n = none) ∧
    o = (Line.join (above ++ line :: between)).length

/-- Below the class that is declared last there is none. -/
theorem exists_of_lastClass_length {xs rest : List Text}
    (h : lastClass (xs ++ rest) xs.length = some c) :
    ∃ above line between, xs = above ++ line :: between ∧
      ClassDecl.find? line above.length = some c ∧
      ∀ l ∈ between, ∀ n, ClassDecl.find? l n = none := by
  -- the lines are looked at from the last one up
  induction xs using List.reverseRecOn generalizing rest with
  | nil => simp [lastClass] at h
  | append_singleton xs x ih =>
    have hx : (xs ++ [x] ++ rest)[xs.length]? = some x := by simp
    rw [List.length_append, List.length_singleton, lastClass_succ hx, Option.or_eq_some_iff] at h
    rcases h with h | ⟨hnone, h⟩
    · exact ⟨xs, x, [], rfl, h, by simp⟩
    · rw [List.append_assoc] at h
      obtain ⟨above, line, between, rfl, hclass, hbetween⟩ := ih h
      refine ⟨above, line, between ++ [x], by simp, hclass, ?_⟩
      intro l hl n
      rcases List.mem_append.mp hl with hl | hl
      · exact hbetween l hl n
      · rw [List.mem_singleton.mp hl]
        exact (ClassDecl.find?_eq_none_iff n).mp hnone

/-- A line stands below the class that is declared last on the lines above it. -/
theorem isBelowClass_of_lastClass {pre post : List Line} {l : Line}
    (hd : Line.Reads d.text (pre ++ l :: post)) (h : lastClass d.lines pre.length = some c) :
    d.IsBelowClass c.name (d.offsetAt ⟨pre.length, 0⟩) := by
  rw [lines_eq hd, List.map_append, ← List.length_map Line.content] at h
  obtain ⟨above, line, between, hpre, hclass, hbetween⟩ := exists_of_lastClass_length h
  obtain ⟨above, rest, rfl, rfl, hrest⟩ := List.map_eq_append_iff.mp hpre
  obtain ⟨line, between, rfl, rfl, rfl⟩ := List.map_eq_cons_iff.mp hrest
  rw [List.length_map] at hclass
  refine ⟨above, line, between, l :: post, c, by simpa using hd, by simp, hclass, rfl, ?_, ?_⟩
  · exact fun k hk => hbetween _ (List.mem_map_of_mem hk)
  · have ho := offsetAt_inside hd (Nat.zero_le _)
    simpa using ho

/-- A property belongs to the class that is declared nearest above it. -/
theorem enclosingClass_of_mem_propertiesOf {q : PropertyDecl} (h : q ∈ d.propertiesOf name) :
    ∃ line, d.lines[q.lineNumber]? = some line ∧ d.enclosingClass q.lineNumber = some q.owner ∧
      q.owner.name = name := by
  rw [propertiesOf_eq_filterMap, List.mem_filterMap] at h
  obtain ⟨n, -, h⟩ := h
  obtain ⟨line, hline, hq⟩ := Option.bind_eq_some_iff.mp h
  obtain ⟨-, howner, hname, rfl⟩ := propertyOn_eq_some_iff.mp hq
  exact ⟨line, hline, howner, hname⟩

/-- For every constructor that is offered: if no class is declared on the line in front of which it
goes, it comes below the declaration of a class with the name of its class, with no class declared
on the lines between. A class that is declared on that line has the name too, and the constructor
comes in front of its declaration. -/
theorem constructor_placement {a : Action} (h : d.constructorAction p s = some a) :
    ∃ plan line, a.plan = .constructor plan ∧ d.lines[plan.insertionLine]? = some line ∧
      a.plan.edits d.text = [Edit.insert ⟨plan.insertionLine, 0⟩ plan.text] ∧
      (ClassDecl.find? line plan.insertionLine = none →
        d.IsBelowClass plan.owner.name (d.offsetAt ⟨plan.insertionLine, 0⟩)) ∧
      ∀ decl, ClassDecl.find? line plan.insertionLine = some decl →
        decl.name = plan.owner.name ∧ ∃ x y, CodePoint.char '\n' ∉ x ∧
          d.text.drop (d.offsetAt ⟨plan.insertionLine, 0⟩) = x ++ (decl.statement ++ y) := by
  obtain ⟨owner, first, rest, -, hprops, rfl⟩ := exists_of_constructorAction h
  have hfirst : first ∈ d.propertiesOf owner.name := by
    rw [hprops]
    exact List.mem_cons_self
  obtain ⟨line, hline, hclass, hname⟩ := enclosingClass_of_mem_propertiesOf hfirst
  have hread := Line.reads_read d.text
  obtain ⟨l, hl, rfl⟩ : ∃ l, (Line.read d.text)[first.lineNumber]? = some l ∧ l.content = line := by
    rwa [lines_eq hread, List.getElem?_map, Option.map_eq_some_iff] at hline
  obtain ⟨pre, post, hread, hlen⟩ : ∃ pre post, Line.Reads d.text (pre ++ l :: post) ∧
      pre.length = first.lineNumber := by
    obtain ⟨hsplit, hlen⟩ := Line.split_of_getElem? hl
    rw [hsplit] at hread
    exact ⟨_, _, hread, hlen⟩
  rw [enclosingClass_eq (List.getElem?_eq_some_iff.mp hline).1, lastClass_succ hline] at hclass
  refine ⟨_, l.content, rfl, hline, rfl, fun hnone => ?_, fun decl hdecl => ?_⟩
  · rw [hnone, Option.none_or] at hclass
    have hbelow := isBelowClass_of_lastClass hread (by rwa [hlen])
    rwa [hlen, hname] at hbelow
  · rw [hdecl, Option.some_or, Option.some_inj] at hclass
    obtain ⟨x, y, hstatement⟩ := ClassDecl.exists_statement hdecl
    have ho : d.offsetAt ⟨first.lineNumber, 0⟩ = (Line.join pre).length := by
      have ho := offsetAt_inside hread (Nat.zero_le _)
      rwa [hlen] at ho
    refine ⟨by rw [hclass, hname], x, y ++ (l.ending ++ Line.join post), ?_, ?_⟩
    · have hfeed := hread.not_mem_content
      rw [hstatement, List.mem_append, not_or] at hfeed
      exact hfeed.1
    · rw [ho, ← hread.join_eq, Line.join_append, List.drop_left, Line.join_cons, Line.text,
        hstatement]
      simp only [List.append_assoc]

/-- The declaration above has modifiers, and a class of another name stands further up. -/
theorem constructor_placement_below_declaration :
    ∃ (d : Document) (a : Action),
      d.text = "public class B \x7b\x7d\npublic sealed class A\n\x7b\npublic int X \x7b get; \x7d" ∧
      d.constructorAction ⟨3, 0⟩ {} = some a ∧
      ∃ plan line, a.plan = .constructor plan ∧ d.lines[plan.insertionLine]? = some line ∧
        a.plan.edits d.text = [Edit.insert ⟨plan.insertionLine, 0⟩ plan.text] ∧
        (ClassDecl.find? line plan.insertionLine = none →
          d.IsBelowClass plan.owner.name (d.offsetAt ⟨plan.insertionLine, 0⟩)) ∧
        ∀ decl, ClassDecl.find? line plan.insertionLine = some decl →
          decl.name = plan.owner.name ∧ ∃ x y, CodePoint.char '\n' ∉ x ∧
            d.text.drop (d.offsetAt ⟨plan.insertionLine, 0⟩) = x ++ (decl.statement ++ y) := by
  let d : Document :=
    ⟨"public class B \x7b\x7d\npublic sealed class A\n\x7b\npublic int X \x7b get; \x7d", none⟩
  have hsome : (d.constructorAction ⟨3, 0⟩ {}).isSome = true := by decide +kernel
  obtain ⟨a, ha⟩ := Option.isSome_iff_exists.mp hsome
  exact ⟨d, a, rfl, ha, constructor_placement ha⟩

theorem IsBelowClass.pos {o : Nat} (h : d.IsBelowClass name o) : 0 < o := by
  obtain ⟨above, line, between, below, decl, -, -, hclass, -, -, rfl⟩ := h
  obtain ⟨c, r, hcontent⟩ : ∃ c r, line.content = c :: r := by
    refine List.exists_cons_of_ne_nil fun hnil => ?_
    rw [hnil] at hclass
    cases hclass
  rw [Line.join_append, Line.join_cons, Line.text, hcontent]
  simp

/-- The property stands on the line of the class, and the constructor comes in front of both. -/
theorem constructor_falls_outside_class :
    ∃ (d : Document) (a : Action) (plan : ConstructorPlan),
      d.text = "public class A \x7b public int X \x7b get; \x7d\n\x7d\n" ∧
      d.constructorAction ⟨0, 0⟩ {} = some a ∧ a.plan = .constructor plan ∧
      plan.owner.name = "A" ∧
      ¬d.IsBelowClass plan.owner.name (d.offsetAt ⟨plan.insertionLine, 0⟩) ∧
      d.applyEdits (a.plan.edits d.text) =
        .ok ("public A(int x)\n\x7b\n    this.X = x;\n\x7d\n\n" ++ d.text) := by
  let d : Document := ⟨"public class A \x7b public int X \x7b get; \x7d\n\x7d\n", none⟩
  let owner : ClassDecl := ⟨0, "A", "public", "public class A"⟩
  let plan : ConstructorPlan :=
    { owner
      properties := [⟨owner, "public", "int", "X", 0, "public int X \x7b get; \x7d"⟩]
      insertionLine := 0
      text := "public A(int x)\n\x7b\n    this.X = x;\n\x7d\n\n" }
  refine ⟨d, ⟨Action.constructorTitle, Action.constructorCommand, .constructor plan, d⟩, plan, rfl,
    by decide +kernel, rfl, rfl, fun h => ?_, by decide +kernel⟩
  have hstart : d.offsetAt ⟨plan.insertionLine, 0⟩ = 0 := by decide +kernel
  exact Nat.lt_irrefl 0 (hstart ▸ h.pos)

end Document

end CSharpActions
