import CSharpActions.Action.Apply
import CSharpActions.Proofs.Codegen.Fragment
import CSharpActions.Proofs.Declaration.Names
import CSharpActions.Proofs.Document.Word

/-!
# Offered plans

What the plans of a document look like. A member plan declares above the cursor and assigns below
the first line with an opening brace, one line each; a constructor plan has a line for each
property and four more, above the first property.
-/
namespace CSharpActions

open Codegen (MemberKind)

/-- The plan fits the document: the declaration goes above a line of it, and the assignment below
a later line, which has the brace. -/
structure MemberPlan.Fits (d : Document) (plan : MemberPlan) : Prop where
  exists_lines : ∃ c b : Nat, plan.constructorStart = ⟨c, 0⟩ ∧ plan.bodyStart = ⟨b + 1, 0⟩ ∧
    c ≤ b ∧ ∃ line, d.lines[b]? = some line ∧ CodePoint.char '{' ∈ line
  declaration : Line.IsOneLine plan.member.declaration
  assignment : Line.IsOneLine plan.member.assignment

structure ConstructorPlan.Fits (d : Document) (plan : ConstructorPlan) : Prop where
  insertionLine_lt : plan.insertionLine < d.lineCount
  text : Line.IsFragment plan.text
  length_text : (Line.ofFragment plan.text).length = plan.properties.length + 4

/-- The command that carries out plans of a kind. -/
def Plan.command : Plan → Text
  | .member _ => Action.memberCommand
  | .constructor _ => Action.constructorCommand

def Plan.Fits (d : Document) : Plan → Prop
  | .member plan => plan.Fits d
  | .constructor plan => plan.Fits d

namespace Document

variable {d : Document} {p : Position} {s : Settings}

theorem isProper_styleAt (d : Document) (s : Settings) (line : Nat) :
    (d.styleAt s line).IsProper s := by
  have hi : ∀ c ∈ (d.styleAt s line).memberIndent s, isIndent c = true :=
    fun _ => isIndent_of_mem_indentOf
  refine ⟨hi, ?_, isBreak_eol d⟩
  intro c hc
  rcases List.mem_append.mp hc with hc | hc
  · exact hi c hc
  · exact isIndent_of_mem_unitFor hc

theorem blankAbove_lt {lines : List Text} {floor : Int} {low count n : Nat}
    (h : blankAbove lines floor low count = some n) : n < low + count := by
  induction count with
  | zero => simp [blankAbove] at h
  | succ k ih =>
    unfold blankAbove at h
    split at h
    · obtain rfl := Option.some.inj h
      omega
    · have := ih h
      omega

/-- A member starts at the cursor or above it. -/
theorem exists_memberStart (d : Document) {n : Nat} (hp : p.line = n) :
    ∃ c ≤ n, d.memberStart p = ⟨c, 0⟩ := by
  have here : ∃ c ≤ n, (⟨max p.line 0, 0⟩ : Position) = ⟨(c : Nat), 0⟩ :=
    ⟨n, Nat.le_refl n, by rw [hp, Int.max_eq_left (by omega)]⟩
  unfold memberStart
  dsimp only
  split
  · exact here
  · split
    · rename_i k hk
      have := blankAbove_lt hk
      exact ⟨k, by omega, rfl⟩
    · exact here

theorem mem_take_drop_iff {α : Type} {l : List α} {first last : Nat} {x : α} :
    x ∈ (l.take last).drop first ↔ ∃ j, first + j < last ∧ l[first + j]? = some x := by
  rw [List.mem_iff_getElem?]
  refine exists_congr fun j => ?_
  rw [List.getElem?_drop, List.getElem?_take]
  by_cases h : first + j < last
  · simp [h]
  · simp [h]

theorem bodyStart_eq (d : Document) {n : Nat} (hp : p.line = n) :
    d.bodyStart p = (((d.lines.take (min (n + scanLines) d.lineCount)).drop n).findIdx?
      (·.contains (.char '{'))).map fun j => ⟨(n + j : Nat) + 1, 0⟩ := by
  have hm : (min ((n : Int) + scanLines) d.lineCount).toNat =
      min (n + scanLines) d.lineCount := by omega
  rw [bodyStart, hp, Int.toNat_natCast, hm]
  cases ((d.lines.take (min (n + scanLines) d.lineCount)).drop n).findIdx?
    (·.contains (.char '{')) <;> rfl

/-- A body starts below a line with an opening brace that is near the cursor. -/
theorem exists_of_bodyStart {n : Nat} (hp : p.line = n) {q : Position}
    (h : d.bodyStart p = some q) :
    ∃ j < scanLines, q = ⟨(n + j : Nat) + 1, 0⟩ ∧
      ∃ line, d.lines[n + j]? = some line ∧ CodePoint.char '{' ∈ line := by
  rw [bodyStart_eq d hp] at h
  obtain ⟨j, hj, rfl⟩ := Option.map_eq_some_iff.mp h
  obtain ⟨hlt, hb, -⟩ := List.findIdx?_eq_some_iff_getElem.mp hj
  rw [List.length_drop, List.length_take] at hlt
  simp only [List.getElem_drop, List.getElem_take] at hb
  exact ⟨j, by omega, rfl, _, List.getElem?_eq_getElem _, by simpa using hb⟩

theorem isSome_bodyStart {n j : Nat} (hp : p.line = n) (hj : j < scanLines) {line : Text}
    (hl : d.lines[n + j]? = some line) (hb : CodePoint.char '{' ∈ line) :
    (d.bodyStart p).isSome := by
  have hlt : n + j < d.lineCount := (List.getElem?_eq_some_iff.mp hl).1
  rw [bodyStart_eq d hp, Option.isSome_map, List.findIdx?_isSome, List.any_eq_true]
  exact ⟨line, mem_take_drop_iff.mpr ⟨j, by omega, hl⟩, by simpa using hb⟩

/-- The plan for a member of one kind. -/
def memberPlan (d : Document) (p : Position) (s : Settings) (selected : Selected)
    (body : Position) (kind : MemberKind) : MemberPlan :=
  { parameterType := selected.type
    parameterName := selected.name
    member := Codegen.generateMember kind selected.type selected.name s
      (d.styleAt s selected.signatureLine)
    bodyStart := body
    constructorStart := d.memberStart p }

theorem mem_memberActions {a : Action} (h : a ∈ d.memberActions p s) :
    ∃ selected body kind, d.selectedParameter p = some selected ∧ d.bodyStart p = some body ∧
      a = ⟨kind.title, Action.memberCommand, .member (d.memberPlan p s selected body kind), d⟩ := by
  unfold memberActions at h
  split at h
  · rename_i selected body hs hb
    obtain ⟨kind, -, rfl⟩ := List.mem_map.mp h
    exact ⟨selected, body, kind, hs, hb, rfl⟩
  · simp at h

/-- The selected parameter is the word that the cursor touches. -/
theorem exists_of_selectedParameter {selected : Selected}
    (h : d.selectedParameter p = some selected) :
    ∃ pre l post a b sig, Line.Reads d.text (pre ++ l :: post) ∧ p.line = pre.length ∧
      l.content = a ++ (selected.name ++ b) ∧ Text.IsWordIn a selected.name b ∧
      (a.length ≤ p.character ∧ p.character ≤ a.length + selected.name.length) ∧
      Signature.find? (d.window p) = some sig ∧
      Parameter.typeOf? sig.parameters selected.name = some selected.type := by
  obtain ⟨r, hr, h⟩ := Option.bind_eq_some_iff.mp h
  obtain ⟨sig, hsig, h⟩ := Option.bind_eq_some_iff.mp h
  obtain ⟨type, ht, rfl⟩ := Option.map_eq_some_iff.mp h
  obtain ⟨a, w, b, hl, hw, hc, rfl⟩ := wordRangeAt_eq_some_iff.mp hr
  obtain ⟨pre, l, post, hd, hp, hline⟩ := line?_eq_some hl
  have hn : d.textIn ⟨⟨p.line, a.length⟩, ⟨p.line, a.length + w.length⟩⟩ = w := by
    rw [hp]
    exact textIn_line hd hline
  rw [hn] at ht ⊢
  exact ⟨pre, l, post, a, b, sig, hd, hp, hline, hw, hc, hsig, ht⟩

theorem not_mem_selected {selected : Selected} (h : d.selectedParameter p = some selected) :
    CodePoint.char '\n' ∉ selected.name ∧ CodePoint.char '\n' ∉ selected.type := by
  obtain ⟨-, -, -, a, b, sig, -, -, -, hw, -, -, ht⟩ := exists_of_selectedParameter h
  exact ⟨Text.not_mem_of_forall hw.word (by decide), (Parameter.not_mem_type ht).1⟩

section Member

variable {selected : Selected} {body : Position}

/-- The declaration goes above the brace, and the assignment below it. -/
theorem exists_lines_memberPlan (kind : MemberKind) (hs : d.selectedParameter p = some selected)
    (hb : d.bodyStart p = some body) :
    ∃ c b : Nat, (d.memberPlan p s selected body kind).constructorStart = ⟨c, 0⟩ ∧
      (d.memberPlan p s selected body kind).bodyStart = ⟨b + 1, 0⟩ ∧ c ≤ b ∧
      ∃ line, d.lines[b]? = some line ∧ CodePoint.char '{' ∈ line := by
  obtain ⟨pre, l, post, -, -, -, -, hp, -⟩ := exists_of_selectedParameter hs
  obtain ⟨c, hc, hstart⟩ := exists_memberStart d hp
  obtain ⟨j, -, hbody, hbrace⟩ := exists_of_bodyStart hp hb
  exact ⟨c, pre.length + j, hstart, hbody, by omega, hbrace⟩

theorem memberPlan_fits (kind : MemberKind) (hf : CodePoint.char '\n' ∉ s.privatePrefix)
    (hs : d.selectedParameter p = some selected) (hb : d.bodyStart p = some body) :
    (d.memberPlan p s selected body kind).Fits d := by
  obtain ⟨hname, htype⟩ := not_mem_selected hs
  have hproper := isProper_styleAt d s selected.signatureLine
  exact
    { exists_lines := exists_lines_memberPlan kind hs hb
      declaration := Codegen.isOneLine_declaration hproper hf htype hname
      assignment := Codegen.isOneLine_assignment hproper hf hname }

end Member

theorem exists_of_constructorAction {a : Action} (h : d.constructorAction p s = some a) :
    ∃ owner first rest, d.enclosingClass p.line = some owner ∧
      d.propertiesOf owner.name = first :: rest ∧
      a = ⟨Action.constructorTitle, Action.constructorCommand, .constructor
        { owner, properties := first :: rest
          insertionLine := first.lineNumber
          text := Codegen.generateConstructor owner.modifier owner.name
            ((first :: rest).map (·.toField)) s (d.styleAt s first.lineNumber) }, d⟩ := by
  obtain ⟨owner, ho, h⟩ := Option.bind_eq_some_iff.mp h
  split at h
  · simp at h
  · rename_i first rest hprops
    exact ⟨owner, first, rest, ho, hprops, (Option.some.inj h).symm⟩

theorem mem_constructorAction {a : Action} (h : d.constructorAction p s = some a) :
    ∃ plan, a = ⟨Action.constructorTitle, Action.constructorCommand, .constructor plan, d⟩ ∧
      plan.Fits d := by
  obtain ⟨owner, first, rest, ho, hprops, rfl⟩ := exists_of_constructorAction h
  obtain ⟨line, -, i, hclass⟩ := exists_of_lastClass ho
  obtain ⟨hm, hn⟩ := ClassDecl.not_mem_of_find? hclass
  have hin : ∀ q ∈ first :: rest, q ∈ propertiesFrom owner.name none 0 d.lines :=
    fun q hq => by rw [← hprops] at hq; exact hq
  have hfields : ∀ f ∈ (first :: rest).map (·.toField),
      CodePoint.char '\n' ∉ f.type ∧ CodePoint.char '\n' ∉ f.name := by
    intro f hf
    obtain ⟨q, hq, rfl⟩ := List.mem_map.mp hf
    obtain ⟨-, -, l, -, found, hfound, ht, hname⟩ := exists_of_mem_propertiesFrom (hin q hq)
    have := PropertyDecl.not_mem_of_find? hfound
    rwa [ht, hname] at this
  obtain ⟨htext, hlen⟩ := Codegen.isFragment_generateConstructor
    (isProper_styleAt d s first.lineNumber) hm hn hfields
  refine ⟨_, rfl, ?_, htext, ?_⟩
  · have := (exists_of_mem_propertiesFrom (hin first List.mem_cons_self)).2.1
    rwa [Nat.zero_add] at this
  · rw [hlen, List.length_map]

/-- Every action that is offered has a plan that fits the document. -/
theorem fits_of_mem_actionsAt (hf : CodePoint.char '\n' ∉ s.privatePrefix) {a : Action}
    (h : a ∈ d.actionsAt p s) :
    d = a.document ∧ a.plan.Fits d ∧ a.command = a.plan.command := by
  rcases List.mem_append.mp h with h | h
  · obtain ⟨selected, body, kind, hs, hb, rfl⟩ := mem_memberActions h
    exact ⟨rfl, memberPlan_fits kind hf hs hb, rfl⟩
  · obtain ⟨plan, rfl, hfits⟩ := mem_constructorAction (Option.mem_toList.mp h)
    exact ⟨rfl, hfits, rfl⟩

end Document

end CSharpActions
