import CSharpActions.Action.Search
import CSharpActions.Proofs.Action.Placement
import CSharpActions.Proofs.Action.Surroundings
import CSharpActions.Proofs.Declaration.Ownership
import CSharpActions.Proofs.Text.Size

/-!
# What the search for actions finds

Wherever the cursor is, all numbers by which lines are looked at are those of lines. So the search
comes to the actions at the position, unless a text that it has to build is too long; and nothing is
built where nothing is offered.
-/
namespace CSharpActions

/-- The texts that are generated for a plan. -/
def Plan.texts : Plan → List Text
  | .member plan => [plan.member.declaration, plan.member.assignment]
  | .constructor plan => [plan.text]

/-- The unit of indentation is a tab, or its blanks can be put together. -/
def Document.HasUnit (d : Document) (room : Text.Room) (tabSize : Int) : Prop :=
  prefersTabs d.lines = true ∨ Text.FitsCopies room 1 tabSize

/-- The texts for an action can be built. -/
structure Action.Buildable (room : Text.Room) (s : Settings) (a : Action) : Prop where
  unit : a.document.HasUnit room s.tabSize
  texts : ∀ t ∈ a.plan.texts, Text.Fits room t.length

namespace Document

open Codegen (MemberKind Style)

variable {α : Type} {d : Document} {p : Position} {s : Settings} {room : Text.Room}

/-! ## Lines that are looked at -/

theorem exists_of_mem_numbers {step first m : Int} {n : Nat} (h : m ∈ numbers step first n) :
    ∃ i : Nat, i < n ∧ m = first + i * step := by
  induction n generalizing first with
  | zero => cases h
  | succ n ih =>
    rcases List.mem_cons.mp h with rfl | h
    · exact ⟨0, Nat.succ_pos n, by simp⟩
    · obtain ⟨i, hi, rfl⟩ := ih h
      refine ⟨i + 1, Nat.succ_lt_succ hi, ?_⟩
      rw [Int.natCast_succ, Int.add_mul, Int.one_mul]
      omega

@[simp]
theorem line?_natCast (d : Document) (n : Nat) : d.line? n = d.lines[n]? := by
  rw [line?, if_neg (by omega), Int.toNat_natCast]

theorem lineIn_eq {lines : List Text} {n : Int} {line : Text}
    (h : (if n < 0 then none else lines[n.toNat]?) = some line) : lineIn lines n = .ok line := by
  rw [lineIn, h]

theorem exists_lineIn_eq {n : Int} (h : 0 ≤ n ∧ n < d.lineCount) :
    ∃ line, d.line? n = some line ∧ lineIn d.lines n = .ok line := by
  obtain ⟨line, hline⟩ := exists_line? h
  exact ⟨line, hline, lineIn_eq hline⟩

/-- A search among lines of the document misses none of them. -/
theorem seek_eq (test : Int → Text → Option α) {ns : List Int}
    (h : ∀ n ∈ ns, 0 ≤ n ∧ n < d.lineCount) :
    seek d.lines test ns = .ok (ns.findSome? fun n => (d.line? n).bind (test n)) := by
  induction ns with
  | nil => rfl
  | cons n ns ih =>
    obtain ⟨line, hline, hin⟩ := exists_lineIn_eq (h n List.mem_cons_self)
    rw [seek, hin, List.findSome?_cons, hline, Option.bind_some]
    dsimp only
    rw [ih fun m hm => h m (List.mem_cons_of_mem n hm)]
    cases test n line <;> rfl

/-! ## What the searches find -/

theorem findSome?_numbers_class (d : Document) (k : Nat) :
    ((numbers (-1) ((k : Int) - 1) k).findSome? fun n => (d.line? n).bind fun l =>
      ClassDecl.find? l n) = lastClass d.lines k := by
  induction k with
  | zero => rfl
  | succ k ih =>
    have hk : ((k + 1 : Nat) : Int) - 1 = k := by omega
    rw [hk, numbers, List.findSome?_cons, line?_natCast, ← Int.sub_eq_add_neg, ih, lastClass]
    cases (d.lines[k]?).bind fun l => ClassDecl.find? l k <;> rfl

theorem seekClass_eq (d : Document) (line : Int) :
    d.seekClass line = .ok (d.enclosingClass line) := by
  rw [seekClass, seek_eq]
  · have hcount : (min line (d.lineCount - 1) + 1).toNat = (min (line + 1) d.lineCount).toNat := by
      omega
    rw [enclosingClass, ← findSome?_numbers_class, hcount]
    generalize hk : (min (line + 1) (d.lineCount : Int)).toNat = k
    cases k with
    | zero => rfl
    | succ k =>
      congr 3
      omega
  · intro n hn
    obtain ⟨i, hi, rfl⟩ := exists_of_mem_numbers hn
    omega

theorem findSome?_numbers_brace (d : Document) (first k : Nat) (h : first + k ≤ d.lineCount) :
    ((numbers 1 first k).findSome? fun n => (d.line? n).bind fun l =>
      if l.contains (.char '{') then some (⟨n + 1, 0⟩ : Position) else none) =
      (((d.lines.take (first + k)).drop first).findIdx? (·.contains (.char '{'))).map
        fun i => ⟨((first + i : Nat) : Int) + 1, 0⟩ := by
  -- the lines are taken from the first on, so that the index of the rest is one less
  induction k generalizing first with
  | zero =>
    rw [List.drop_of_length_le (by simp)]
    rfl
  | succ k ih =>
    have hline : first < d.lines.length := by
      rw [lineCount] at h
      omega
    have hlt : first < (d.lines.take (first + (k + 1))).length := by
      rw [List.length_take]
      omega
    have hnext := ih (first + 1) (by omega)
    rw [Nat.add_assoc, Nat.add_comm 1 k] at hnext
    rw [numbers, List.findSome?_cons, List.drop_eq_getElem_cons hlt, List.findIdx?_cons,
      List.getElem_take, line?_natCast, List.getElem?_eq_getElem hline, Option.bind_some]
    cases d.lines[first].contains (.char '{') with
    | true => simp
    | false =>
      rw [if_neg (by simp), if_neg (by simp), Option.map_map]
      refine hnext.trans ?_
      congr 1
      funext i
      simp only [Function.comp, Nat.add_assoc, Nat.add_comm 1 i]

theorem seekBodyStart_eq (d : Document) (p : Position) :
    d.seekBodyStart p = .ok (d.bodyStart p) := by
  rw [seekBodyStart, seek_eq]
  · have hfirst : max p.line 0 = (p.line.toNat : Int) := by omega
    rw [bodyStart, hfirst]
    generalize hlast : (min (p.line + scanLines) d.lineCount).toNat = last
    have hcount : (min (p.line + scanLines) (d.lineCount : Int) - p.line.toNat).toNat =
        last - p.line.toNat := by omega
    rw [hcount]
    by_cases h : p.line.toNat ≤ last
    · obtain ⟨k, rfl⟩ := Nat.exists_eq_add_of_le h
      rw [Nat.add_sub_cancel_left, findSome?_numbers_brace d p.line.toNat k (by omega)]
      cases ((d.lines.take (p.line.toNat + k)).drop p.line.toNat).findIdx?
        (·.contains (.char '{')) <;> rfl
    · have hempty : (d.lines.take last).length ≤ p.line.toNat := by
        rw [List.length_take]
        omega
      rw [Nat.sub_eq_zero_of_le (by omega), List.drop_of_length_le hempty]
      rfl
  · intro n hn
    obtain ⟨i, hi, rfl⟩ := exists_of_mem_numbers hn
    omega

theorem findSome?_numbers_blank (d : Document) (floor : Int) (low k : Nat) :
    ((numbers (-1) ((low : Int) + k - 1) k).findSome? fun n => (d.line? n).bind fun l =>
      if isBlankLine l && floor ≤ n then some (⟨n, 0⟩ : Position) else none) =
      (blankAbove d.lines floor low k).map fun n => ⟨n, 0⟩ := by
  induction k with
  | zero => rfl
  | succ k ih =>
    have hk : (low : Int) + (k + 1 : Nat) - 1 = (low + k : Nat) := by omega
    have hnext : ((low + k : Nat) : Int) + -1 = (low : Int) + k - 1 := by omega
    rw [hk, numbers, List.findSome?_cons, line?_natCast, hnext, ih, blankAbove]
    cases d.lines[low + k]? with
    | none => simp
    | some line =>
      rw [Option.bind_some, Option.any_some]
      cases isBlankLine line && decide (floor ≤ ((low + k : Nat) : Int)) <;> rfl

theorem seekMemberStart_eq (d : Document) (p : Position) :
    d.seekMemberStart p = .ok (d.memberStart p) := by
  rw [seekMemberStart, seekClass_eq, memberStart]
  cases d.enclosingClass p.line with
  | none => rfl
  | some owner =>
    simp only [Except.bind]
    rw [seek_eq]
    · generalize hlow : (p.line - (scanLines - 1)).toNat = low
      generalize hk : (min p.line (d.lineCount - 1) + 1 - (low : Int)).toNat = k
      have hcount : (min p.line (d.lineCount - 1) - max (p.line - scanLines) (-1)).toNat = k := by
        rw [scanLines] at *
        omega
      have hfind := findSome?_numbers_blank d owner.startLine low k
      have hfirst : 0 < k → min p.line (d.lineCount - 1) = (low : Int) + k - 1 := by omega
      rw [hcount]
      cases k with
      | zero => rfl
      | succ k =>
        rw [hfirst (Nat.succ_pos k), hfind]
        cases blankAbove d.lines owner.startLine low (k + 1) <;> rfl
    · intro n hn
      obtain ⟨i, hi, rfl⟩ := exists_of_mem_numbers hn
      omega

theorem seekOffset_eq (d : Document) (p : Position) : d.seekOffset p = .ok (d.offsetAt p) := by
  have hlt : (d.clamp p).line.toNat < (lineStarts d.text).length := by
    obtain ⟨pre, l, post, c, hd, -, hq⟩ := exists_clamp_eq d p
    rw [hq, length_lineStarts, lineCount_eq hd, List.length_append, List.length_cons]
    dsimp only
    omega
  rw [seekOffset, List.getElem?_eq_getElem hlt, offsetAt, offsetWith,
    List.getD_eq_getElem?_getD]
  dsimp only
  rw [← clamp, List.getElem?_eq_getElem hlt, Option.getD_some]

theorem seekText_eq (d : Document) (r : Range) : d.seekText r = .ok (d.textIn r) := by
  rw [seekText, seekOffset_eq, seekOffset_eq]
  rfl

theorem seekSelected_eq (d : Document) (p : Position) :
    d.seekSelected p = .ok (d.selectedParameter p) := by
  rw [seekSelected, selectedParameter]
  cases d.wordRangeAt p with
  | none => rfl
  | some r =>
    dsimp only
    rw [seekText_eq, seekText_eq]
    rfl

/-! ## What is generated -/

theorem unitError?_eq_none_iff {tabSize : Int} :
    d.unitError? room tabSize = none ↔ d.HasUnit room tabSize := by
  rw [unitError?, HasUnit, ← Text.copiesError?_eq_none_iff]
  by_cases h : prefersTabs d.lines = true <;> simp [h]

theorem yields_seekStyle (s : Settings) (room : Text.Room) {n : Nat} (h : n < d.lineCount) :
    Yields .size (d.seekStyle s room n) (d.HasUnit room s.tabSize) (d.styleAt s n) := by
  have hline : d.lines[n]? = some d.lines[n] := List.getElem?_eq_getElem h
  have hat : d.lineAt n = .ok d.lines[n] := lineIn_eq (by simpa using hline)
  refine .of_check unitError?_eq_none_iff (fun hunit => ?_) fun e hunit => ?_
  · rw [seekStyle, hat, hunit, styleAt, List.getD_eq_getElem?_getD, hline]
    rfl
  · rw [seekStyle, hat, hunit]

theorem unitError?_styleAt (n : Nat) : (d.styleAt s n).unitError? room s = none := rfl

theorem yields_memberWithin (room : Text.Room) (kind : MemberKind) (type parameter : Text)
    {style : Style} (h : style.unitError? room s = none) :
    Yields id (Codegen.memberWithin room kind type parameter s style)
      (∀ t ∈ [(Codegen.generateMember kind type parameter s style).declaration,
        (Codegen.generateMember kind type parameter s style).assignment], Text.Fits room t.length)
      (Codegen.generateMember kind type parameter s style) := by
  unfold Codegen.memberWithin
  rw [h]
  refine .of_check Text.firstError?_eq_none_iff (fun hcheck => ?_) fun e hcheck => ?_
  · simp only [hcheck]
  · simp only [hcheck, id_eq]

theorem yields_constructorWithin (room : Text.Room) (modifier name : Text)
    (fields : List Codegen.Field) {style : Style} (h : style.unitError? room s = none) :
    Yields id (Codegen.constructorWithin room modifier name fields s style)
      (∀ t ∈ [Codegen.generateConstructor modifier name fields s style], Text.Fits room t.length)
      (Codegen.generateConstructor modifier name fields s style) := by
  unfold Codegen.constructorWithin
  rw [h]
  refine .of_check Text.firstError?_eq_none_iff (fun hcheck => ?_) fun e hcheck => ?_
  · simp only [hcheck]
  · simp only [hcheck, id_eq]

theorem signatureLine_lt {selected : Selected} (h : d.selectedParameter p = some selected) :
    selected.signatureLine < d.lineCount := by
  obtain ⟨before, sig, after, hmatches, hline⟩ := exists_matches_of_selectedParameter h
  have hd := Line.reads_read d.text
  have hlt := hmatches.count_lt hd
  rw [List.count_append] at hlt
  rw [hline, lineCount_eq hd]
  omega

/-! ## What is offered -/

theorem yields_seekMembers (d : Document) (p : Position) (s : Settings) (room : Text.Room) :
    Yields .size (d.seekMembers p s room) (∀ a ∈ d.memberActions p s, a.Buildable room s)
      (d.memberActions p s) := by
  rw [seekMembers, seekSelected_eq, seekBodyStart_eq, seekMemberStart_eq, memberActions]
  cases hs : d.selectedParameter p with
  | none => exact (Yields.of_eq rfl).congr (by simp)
  | some selected =>
    cases d.bodyStart p with
    | none => exact (Yields.of_eq rfl).congr (by simp)
    | some body =>
      have hstyle := yields_seekStyle s room (signatureLine_lt hs)
      have hmembers := Yields.mapM (l := MemberKind.all) fun kind _ =>
        ((yields_memberWithin room kind selected.type selected.name
          (unitError?_styleAt (d := d) (s := s) selected.signatureLine)).mapError
            SearchError.size).map fun member =>
              ({ title := kind.title
                 command := Action.memberCommand
                 plan := .member
                   { parameterType := selected.type
                     parameterName := selected.name
                     member
                     bodyStart := body
                     constructorStart := d.memberStart p }
                 document := d } : Action)
      change Yields _ ((d.seekStyle s room selected.signatureLine).bind _) _ _
      refine Yields.congr (Yields.bind hstyle hmembers) ?_
      rw [List.forall_mem_map]
      constructor
      · exact fun h kind hkind => ⟨h.1, h.2 kind hkind⟩
      · exact fun h => ⟨(h .field (by decide)).unit, fun kind hkind => (h kind hkind).texts⟩

theorem yields_seekConstructor (d : Document) (p : Position) (s : Settings) (room : Text.Room) :
    Yields .size (d.seekConstructor p s room) (∀ a ∈ d.constructorAction p s, a.Buildable room s)
      (d.constructorAction p s) := by
  rw [seekConstructor, seekClass_eq, constructorAction]
  cases d.enclosingClass p.line with
  | none => exact (Yields.of_eq rfl).congr (by simp)
  | some owner =>
    have hbind : ∀ f : Option ClassDecl → Except SearchError (Option Action),
        (Except.ok (some owner)).bind f = f (some owner) := fun _ => rfl
    rw [Option.bind_some, hbind]
    dsimp only
    cases hprops : d.propertiesOf owner.name with
    | nil => exact (Yields.of_eq rfl).congr (by simp)
    | cons first rest =>
      have hlt : first.lineNumber < d.lineCount := by
        have hmem : first ∈ d.propertiesOf owner.name := by
          rw [hprops]
          exact List.mem_cons_self
        have hlt := (exists_of_mem_propertiesFrom hmem).2.1
        rwa [Nat.zero_add] at hlt
      have hstyle := yields_seekStyle s room hlt
      have htext := ((yields_constructorWithin room owner.modifier owner.name
        ((first :: rest).map (·.toField))
        (unitError?_styleAt (d := d) (s := s) first.lineNumber)).mapError SearchError.size).map
          fun text => some
            ({ title := Action.constructorTitle
               command := Action.constructorCommand
               plan := .constructor
                 { owner, properties := first :: rest, insertionLine := first.lineNumber, text }
               document := d } : Action)
      refine Yields.congr (Yields.bind hstyle htext) ?_
      simp only [Option.mem_some_iff, forall_eq']
      exact ⟨fun h => ⟨h.1, h.2⟩, fun h => ⟨h.unit, h.texts⟩⟩

/-- The search comes to the actions at the position if all their texts can be built. -/
theorem yields_offer (d : Document) (p : Position) (s : Settings) (room : Text.Room) :
    Yields .size (d.offer p s room) (∀ a ∈ d.actionsAt p s, a.Buildable room s)
      (d.actionsAt p s) := by
  refine ((yields_seekMembers d p s room).bind
    ((yields_seekConstructor d p s room).map fun c => d.memberActions p s ++ c.toList)).congr ?_
  rw [actionsAt, List.forall_mem_append]
  simp only [Option.mem_toList, Option.mem_def]

theorem buildable_none (s : Settings) (a : Action) : a.Buildable none s :=
  ⟨Or.inr nofun, fun t _ => Text.fits_none t.length⟩

/-- Without a bound the search always comes to the actions at the position. -/
theorem offer_eq (d : Document) (p : Position) (s : Settings) :
    d.offer p s = .ok (d.actionsAt p s) :=
  (yields_offer d p s none).ok fun a _ => buildable_none s a

end Document

end CSharpActions
