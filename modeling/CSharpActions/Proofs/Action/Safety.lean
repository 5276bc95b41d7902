import CSharpActions.Proofs.Action.Execution
import CSharpActions.Proofs.Action.Search

/-!
# Safety at every position

Whatever the text, the position and the settings are, the search for actions misses no line. It
comes to members of each kind, to a constructor, to both or to nothing. The lines that the plans
name are near the position and not below the end of the document, and the plans can be carried out.
All that can go wrong is that a text gets too long, and which texts these are is said here.
-/
namespace CSharpActions

namespace Splice

theorem length_applyTo (s : Splice) (t : Text) : (s.applyTo t).length = s.sizeAfter t.length := by
  rw [applyTo, sizeAfter, List.length_append, List.length_append, List.length_take,
    List.length_drop]

theorem sizes_cons (s : Splice) (r : List Splice) (t : Text) :
    sizes t.length (s :: r) = ((s :: r).foldr applyTo t).length :: sizes t.length r := by
  induction r generalizing s with
  | nil => exact congrArg (· :: []) (length_applyTo s t).symm
  | cons s' r ih =>
    rw [sizes, ih s']
    exact congrArg (· :: _) (length_applyTo s _).symm

/-- The lengths are those of the texts to which the splices from any one on lead. -/
theorem mem_sizes_iff {n : Nat} {splices : List Splice} {t : Text} :
    n ∈ sizes t.length splices ↔
      ∃ rest ≠ [], rest <:+ splices ∧ n = (rest.foldr applyTo t).length := by
  induction splices with
  | nil => simp [sizes, List.suffix_nil]
  | cons s r ih =>
    rw [sizes_cons, List.mem_cons, ih]
    constructor
    · rintro (rfl | ⟨rest, hne, hrest, rfl⟩)
      · exact ⟨s :: r, List.cons_ne_nil s r, List.suffix_rfl, rfl⟩
      · exact ⟨rest, hne, hrest.trans (List.suffix_cons s r), rfl⟩
    · rintro ⟨rest, hne, hrest, rfl⟩
      rcases List.suffix_cons_iff.mp hrest with rfl | hrest
      · exact .inl rfl
      · exact .inr ⟨rest, hne, hrest, rfl⟩

end Splice

/-- The texts to which the edits lead, which are applied from the last one to the first, can be
built. -/
def Document.Builds (room : Text.Room) (d : Document) (edits : List Edit) : Prop :=
  ∀ splices, Edit.resolveAll d edits = .ok splices →
    ∀ rest ≠ [], rest <:+ (splices.mergeSort fun a b => a.start ≤ b.start) →
      Text.Fits room (rest.foldr Splice.applyTo d.text).length

/-- The indentation of a line can be built. -/
def Layout.Placement.Fits (room : Text.Room) (unitSize : Nat) : Layout.Placement → Prop
  | .keep => True
  | .level n => Text.FitsCopies room unitSize n
  | .column n => unitSize = 0 ∨ Text.FitsCopies room 1 n

/-- The unit and the indentations of all lines can be built. -/
def Layout.Buildable (room : Text.Room) (d : Document) (tabSize : Int) : Prop :=
  d.HasUnit room tabSize ∧
    ∀ p ∈ placements (d.indentUnit tabSize).length {} d.lines,
      p.Fits room (d.indentUnit tabSize).length

/-- The texts that are built while edits are committed and the result is indented. -/
structure Applied.Buildable (room : Text.Room) (host : Host) (a : Applied) : Prop where
  edits : a.document.Builds room a.edits
  layout : a.edits ≠ [] → host.lays = true → ∀ t, a.document.applyEdits a.edits = .ok t →
    Layout.Buildable room (a.document.withText t) host.settings.tabSize ∧
      ∀ edits, Layout.format (a.document.withText t) host.settings.tabSize = .ok edits →
        (a.document.withText t).Builds room edits

section Room

variable {room : Text.Room} {d : Document} {edits : List Edit} {t : Text}

theorem Document.editsError?_eq_none_iff :
    d.editsError? room edits = none ↔ d.Builds room edits := by
  simp only [editsError?, Option.bind_eq_none_iff, List.findSome?_eq_none_iff, List.mem_reverse,
    Splice.mem_sizes_iff, Text.sizeError?_eq_none_iff, Builds]
  constructor
  · intro h splices hres rest hne hrest
    exact h splices (by rw [hres]; rfl) _ ⟨rest, hne, hrest, rfl⟩
  · rintro h splices hres _ ⟨rest, hne, hrest, rfl⟩
    cases hall : Edit.resolveAll d edits with
    | error e =>
      rw [hall] at hres
      cases hres
    | ok splices' =>
      rw [hall] at hres
      obtain rfl := Option.some.inj hres
      exact h splices' hall rest hne hrest

theorem Document.builds_nil (room : Text.Room) (d : Document) : d.Builds room [] := by
  intro splices hres rest hne hrest
  obtain rfl : [] = splices := Except.ok.inj hres
  rw [List.mergeSort_nil, List.suffix_nil] at hrest
  exact absurd hrest hne

theorem Document.yields_edited (h : d.applyEdits edits = .ok t) (room : Text.Room) :
    Yields .size (d.edited edits room) (d.Builds room edits) t := by
  refine .of_check editsError?_eq_none_iff (fun hcheck => ?_) fun e hcheck => ?_
  · rw [edited, h, hcheck]
  · rw [edited, h, hcheck]

namespace Layout

theorem Placement.sizeError?_eq_none_iff {unitSize : Nat} {p : Placement} :
    p.sizeError? room unitSize = none ↔ p.Fits room unitSize := by
  cases p with
  | keep => simp [sizeError?, Fits]
  | level n => exact Text.copiesError?_eq_none_iff
  | column n =>
    rw [sizeError?, Fits, ← Text.copiesError?_eq_none_iff]
    by_cases h : unitSize = 0 <;> simp [h]

theorem sizeError?_eq_none_iff {tabSize : Int} :
    sizeError? room d tabSize = none ↔ Buildable room d tabSize := by
  rw [sizeError?, Buildable, ← Document.unitError?_eq_none_iff]
  cases d.unitError? room tabSize with
  | some e => simp
  | none =>
    simp only [List.findSome?_eq_none_iff, Placement.sizeError?_eq_none_iff, true_and]

theorem yields_format {tabSize : Int} (h : format d tabSize = .ok edits) (room : Text.Room) :
    Yields .size (format d tabSize room) (Buildable room d tabSize) edits := by
  rw [format_eq_editsFrom] at h
  refine .of_check sizeError?_eq_none_iff (fun hcheck => ?_) fun e hcheck => ?_
  · rw [format, hcheck]
    exact h
  · rw [format, hcheck]

end Layout

namespace Action

variable {host : Host} {a : Applied} {m : Memory} {applied : Applied}

/-- What is committed to memory, as the steps that can fail. -/
theorem result_commit_memorySink (host : Host) (m : Memory) (room : Text.Room)
    (he : a.edits ≠ []) :
    (commit host (memorySink none room) a m room).result =
      ((a.document.edited a.edits room).mapError (ofSinkError a.command)).bind fun t =>
        let updated := a.document.withText t
        if host.lays then
          ((Layout.format updated host.settings.tabSize room).mapError ofLayout).bind fun edits =>
            if edits = [] then .ok { a with document := updated }
            else ((updated.edited edits room).mapError (ofSinkError a.command)).map fun t =>
              { a with document := updated.withText t, formatEdits := edits }
        else .ok { a with document := updated } := by
  have hne : a.edits.isEmpty = false := by simpa using he
  have hlays : (host.settings.reformat && host.formats) = host.lays := rfl
  simp only [commit, hne, hlays, memorySink, memorySink.accept, Bool.false_eq_true, if_false]
  cases a.document.edited a.edits room with
  | error e => cases e <;> rfl
  | ok t =>
    cases host.lays with
    | false => rfl
    | true =>
      simp only [if_true, Except.mapError, Except.bind]
      cases Layout.format (a.document.withText t) host.settings.tabSize room with
      | error e => rfl
      | ok edits =>
        cases edits with
        | nil => rfl
        | cons e es =>
          dsimp only
          cases (a.document.withText t).edited (e :: es) room with
          | error e => cases e <;> rfl
          | ok t => rfl

theorem buildable_of_edits_nil (he : a.edits = []) : a.Buildable room host := by
  refine ⟨?_, fun hne => absurd he hne⟩
  rw [he]
  exact Document.builds_nil room a.document

theorem buildable_iff_of_not_lays (hl : host.lays = false) :
    a.Buildable room host ↔ a.document.Builds room a.edits :=
  ⟨Applied.Buildable.edits, fun h => ⟨h, fun _ hlays => absurd (hlays.symm.trans hl) (by decide)⟩⟩

theorem buildable_iff (he : a.edits ≠ []) (hl : host.lays = true)
    (ht : a.document.applyEdits a.edits = .ok t)
    (hf : Layout.format (a.document.withText t) host.settings.tabSize = .ok edits) :
    a.Buildable room host ↔ a.document.Builds room a.edits ∧
      Layout.Buildable room (a.document.withText t) host.settings.tabSize ∧
        (a.document.withText t).Builds room edits := by
  constructor
  · intro h
    obtain ⟨hu, hn⟩ := h.layout he hl t ht
    exact ⟨h.edits, hu, hn edits hf⟩
  · rintro ⟨hb, hu, hn⟩
    refine ⟨hb, fun _ _ t' ht' => ?_⟩
    obtain rfl := Except.ok.inj (ht.symm.trans ht')
    refine ⟨hu, fun edits' hf' => ?_⟩
    obtain rfl := Except.ok.inj (hf.symm.trans hf')
    exact hn

theorem exists_of_bind_mapError {ε ε' α β : Type} {x : Except ε α} {f : ε → ε'}
    {g : α → Except ε' β} {b : β} (h : (x.mapError f).bind g = .ok b) :
    ∃ a, x = .ok a ∧ g a = .ok b := by
  cases x with
  | error e => cases h
  | ok a => exact ⟨a, rfl, h⟩

/-- What can be committed without a bound is committed if all texts on the way can be built. -/
theorem yields_commit (h : (commit host (memorySink none) a m).result = .ok applied)
    (room : Text.Room) :
    Yields .size (commit host (memorySink none room) a m room).result (a.Buildable room host)
      applied := by
  by_cases he : a.edits = []
  · have hcommit : ∀ room, (commit host (memorySink none room) a m room).result = .ok a := by
      intro room
      rw [commit, he]
      rfl
    obtain rfl := Except.ok.inj ((hcommit none).symm.trans h)
    exact (Yields.of_eq (hcommit room)).congr (iff_of_true trivial (buildable_of_edits_nil he))
  rw [result_commit_memorySink host m none he] at h
  rw [result_commit_memorySink host m room he]
  obtain ⟨t, ht, h⟩ := exists_of_bind_mapError h
  have ht := Document.edited_eq_ok_iff.mp ht
  have hedited : Yields ApplyError.size _ _ _ :=
    (Document.yields_edited ht room).mapError (ofSinkError a.command)
  cases hl : host.lays with
  | false =>
    simp only [hl, Bool.false_eq_true, if_false] at h ⊢
    exact (hedited.bind (Yields.of_eq h)).congr
      ((and_true _).to_iff.trans (buildable_iff_of_not_lays hl).symm)
  | true =>
    simp only [hl, if_true] at h ⊢
    obtain ⟨edits, hf, h⟩ := exists_of_bind_mapError h
    have hformat : Yields ApplyError.size _ _ _ := (Layout.yields_format hf room).mapError ofLayout
    refine (hedited.bind (hformat.bind ?_)).congr (buildable_iff he hl ht hf).symm
    by_cases hnil : edits = []
    · rw [if_pos hnil] at h ⊢
      rw [hnil]
      exact (Yields.of_eq h).congr (iff_of_true trivial (Document.builds_nil room _))
    · rw [if_neg hnil] at h ⊢
      obtain ⟨t', ht', h⟩ := exists_of_bind_mapError h
      obtain rfl := Except.ok.inj h
      have hlaid : Yields ApplyError.size _ _ _ :=
        (Document.yields_edited (Document.edited_eq_ok_iff.mp ht') room).mapError
          (ofSinkError a.command)
      exact hlaid.map _

end Action

end Room

namespace Plan

/-- The kind of member that a plan is for. -/
def memberKind? : Plan → Option Codegen.MemberKind
  | .member plan => some plan.member.kind
  | .constructor _ => none

def title : Plan → Text
  | .member plan => plan.member.kind.title
  | .constructor _ => Action.constructorTitle

/-- A member is declared at the cursor or above it, and assigned below it, at the beginnings of
lines that are near; a constructor goes in front of a line of the document. -/
def Near (d : Document) (p : Position) : Plan → Prop
  | .member plan =>
    (0 ≤ plan.constructorStart.line ∧ plan.constructorStart.line ≤ p.line ∧
      p.line < plan.bodyStart.line ∧ plan.bodyStart.line ≤ min (p.line + 5) d.lineCount) ∧
      plan.constructorStart.character = 0 ∧ plan.bodyStart.character = 0
  | .constructor plan => plan.insertionLine < d.lineCount

end Plan

namespace Document

open Codegen (MemberKind)

variable {d : Document} {p : Position} {s : Settings}

/-- What the actions at a position may be for, in their order. -/
def offers : List (List (Option MemberKind)) :=
  [[], [some .field, some .readonlyProperty, some .property], [none],
    [some .field, some .readonlyProperty, some .property, none]]

theorem memberKinds_memberActions (d : Document) (p : Position) (s : Settings) :
    (d.memberActions p s).map (·.plan.memberKind?) ∈
      [[], [some .field, some .readonlyProperty, some .property]] := by
  unfold memberActions
  split
  · exact List.mem_cons_of_mem _ List.mem_cons_self
  · exact List.mem_cons_self

theorem memberKinds_mem_offers (d : Document) (p : Position) (s : Settings) :
    (d.actionsAt p s).map (·.plan.memberKind?) ∈ offers := by
  have hmembers := memberKinds_memberActions d p s
  rw [actionsAt, List.map_append]
  cases hc : d.constructorAction p s with
  | none =>
    rw [Option.toList_none, List.map_nil, List.append_nil]
    exact List.mem_append_left [[none], _] hmembers
  | some a =>
    obtain ⟨plan, rfl, -⟩ := mem_constructorAction hc
    rw [List.mem_cons, List.mem_singleton] at hmembers
    rcases hmembers with h | h
    · rw [h]
      exact List.mem_of_getElem? (i := 2) rfl
    · rw [h]
      exact List.mem_of_getElem? (i := 3) rfl

theorem near_of_mem_actionsAt {a : Action} (h : a ∈ d.actionsAt p s) :
    a.title = a.plan.title ∧ a.plan.Near d p := by
  rcases List.mem_append.mp h with h | h
  · obtain ⟨selected, body, kind, hs, hb, rfl⟩ := mem_memberActions h
    obtain ⟨pre, l, post, -, -, -, -, hp, -⟩ := exists_of_selectedParameter hs
    obtain ⟨c, hc, hstart⟩ := exists_memberStart d hp
    obtain ⟨j, hj, rfl, line, hline, -⟩ := exists_of_bodyStart hp hb
    have hlt : pre.length + j < d.lineCount := (List.getElem?_eq_some_iff.mp hline).1
    have hstart : (d.memberPlan p s selected ⟨((pre.length + j : Nat) : Int) + 1, 0⟩
        kind).constructorStart = ⟨c, 0⟩ := hstart
    refine ⟨rfl, ?_, ?_, rfl⟩
    · rw [hstart, scanLines] at *
      dsimp only [memberPlan]
      omega
    · rw [hstart]
  · obtain ⟨plan, rfl, hfits⟩ := mem_constructorAction (Option.mem_toList.mp h)
    exact ⟨rfl, hfits.insertionLine_lt⟩

/-- At every position the search finds what is offered, as long as the texts for it can be built.
What is offered are members of each kind in their order, a constructor, or both; near the position,
and to be carried out in memory, as long as the texts on the way can be built. -/
theorem actionsAt_safe (d : Document) (p : Position) (s : Settings) :
    (∀ room, Yields .size (d.offer p s room) (∀ a ∈ d.actionsAt p s, a.Buildable room s)
      (d.actionsAt p s)) ∧
    (d.actionsAt p s).map (·.plan.memberKind?) ∈ offers ∧
    ∀ a ∈ d.actionsAt p s, (a.title = a.plan.title ∧ a.command = a.plan.command ∧ a.document = d) ∧
      a.plan.Near d p ∧
      ∀ (host : Host) (m : Memory), 1 ≤ host.settings.tabSize →
        ∃ applied, (a.execute host (memorySink none) m).result = .ok applied ∧
          ∀ room, Yields .size (a.execute host (memorySink none room) m room).result
            (a.proposed.Buildable room host) applied := by
  refine ⟨yields_offer d p s, memberKinds_mem_offers d p s, fun a ha => ?_⟩
  obtain ⟨htitle, hnear⟩ := near_of_mem_actionsAt ha
  obtain ⟨rfl, hplaced, hcommand⟩ := placed_of_mem_actionsAt ha
  refine ⟨⟨htitle, hcommand, rfl⟩, hnear, fun host m hk => ?_⟩
  obtain ⟨applied, hdone⟩ := Action.execute_memory_of_placed (m := m) hk hcommand hplaced
  refine ⟨applied, hdone, fun room => ?_⟩
  rw [(Action.execute_eq host hcommand (memorySink none) m).1] at hdone
  rw [(Action.execute_eq host hcommand (memorySink none room) m room).1]
  exact Action.yields_commit hdone room

/-- All four actions, where the brace stands on the last line of the document. -/
theorem actionsAt_safe_on_last_line :
    ∃ (d : Document) (p : Position) (a : Action),
      d.text = "public class A \x7b\npublic int X \x7b get; \x7d\npublic A(int x) \x7b \x7d \x7d" ∧
      p = ⟨2, 14⟩ ∧ a ∈ d.actionsAt p {} ∧ (d.actionsAt p {}).length = 4 ∧
      a.plan.Near d p ∧ d.offer p {} (some 100) = .ok (d.actionsAt p {}) ∧
      (1 : Int) ≤ ({} : Host).settings.tabSize ∧
      ∃ applied, (a.execute {} (memorySink none) {}).result = .ok applied := by
  let d : Document :=
    ⟨"public class A \x7b\npublic int X \x7b get; \x7d\npublic A(int x) \x7b \x7d \x7d", none⟩
  have hlen : (d.actionsAt ⟨2, 14⟩ {}).length = 4 := by decide +kernel
  have hne : d.actionsAt ⟨2, 14⟩ {} ≠ [] := List.ne_nil_of_length_pos (by omega)
  obtain ⟨a, ha⟩ := List.exists_mem_of_ne_nil _ hne
  obtain ⟨hoffer, -, hall⟩ := actionsAt_safe d ⟨2, 14⟩ {}
  obtain ⟨-, hnear, hrun⟩ := hall a ha
  have htexts : ∀ a ∈ d.actionsAt ⟨2, 14⟩ {}, ∀ t ∈ a.plan.texts,
      Text.Fits (some 100) t.length := by decide +kernel
  have hdocument : ∀ a ∈ d.actionsAt ⟨2, 14⟩ {}, a.document = d := by decide +kernel
  have hunit : d.HasUnit (some 100) ({} : Settings).tabSize := by
    refine .inr fun most hmost => ?_
    obtain rfl := Option.some.inj hmost
    exact ⟨by decide, by decide⟩
  have hbuild : ∀ a ∈ d.actionsAt ⟨2, 14⟩ {}, a.Buildable (some 100) {} := fun a ha =>
    ⟨by rw [hdocument a ha]; exact hunit, htexts a ha⟩
  obtain ⟨applied, hdone, -⟩ := hrun {} {} (by decide)
  exact ⟨d, _, a, rfl, rfl, ha, hlen, hnear, (hoffer (some 100)).ok hbuild, by decide, applied,
    hdone⟩

/-- No blanks are wanted, but their number has one bit too many. -/
theorem offered_unit_exceeds_word :
    ∃ (d : Document) (p : Position) (s : Settings), p = ⟨2, 13⟩ ∧
      d.text = "public class A\n\x7b\npublic A(int x) \x7b \x7d\n\x7d\n" ∧
      s = { tabSize := -9223372036854775809 } ∧ d.indentUnit s.tabSize = [] ∧
      (d.actionsAt p s).length = 3 ∧ d.offer p s (some (2 ^ 40)) = .error (.size .overflow) :=
  ⟨⟨"public class A\n\x7b\npublic A(int x) \x7b \x7d\n\x7d\n", none⟩, _, _, rfl, rfl, rfl,
    by decide +kernel, by decide +kernel, by decide +kernel⟩

end Document

end CSharpActions
