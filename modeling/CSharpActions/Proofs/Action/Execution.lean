import CSharpActions.Proofs.Action.Offer
import CSharpActions.Proofs.Document.Insertion
import CSharpActions.Proofs.Layout.Stability

/-!
# Carrying out plans

Carrying out a plan that fits the document succeeds. It puts the fragments that are missing above
their lines and may then indent the result, so that apart from the indentation every line stays
what it was.
-/
namespace CSharpActions

open Line (insertAbove insertAll unindented)

namespace Plan

/-- The fragments that a plan brings into a text, each with the number of the line it goes above. -/
def fragments (t : Text) : Plan → List (Nat × Text)
  | .member plan =>
    ((Action.memberFragments plan).filter fun f => !Action.present t f.2).map
      fun f => (f.1.line.toNat, f.2)
  | .constructor plan => [(plan.insertionLine, plan.text)]

/-- The lines of a fragment, unless the text has it already. -/
def missing (t f : Text) : List Line := if Action.present t f then [] else Line.ofFragment f

/-- The lines of a document with those of a plan between them. -/
def linesAfter (d : Document) : Plan → List Line
  | .member plan =>
    insertAbove plan.constructorStart.line.toNat (missing d.text plan.member.declaration)
      (insertAbove plan.bodyStart.line.toNat (missing d.text plan.member.assignment)
        (Line.read d.text))
  | .constructor plan =>
    insertAbove plan.insertionLine (Line.ofFragment plan.text) (Line.read d.text)

def edits (t : Text) : Plan → List Edit
  | .member plan => Action.memberEdits t plan
  | .constructor plan => Action.constructorEdits plan

def skipped (t : Text) : Plan → List Text
  | .member plan => Action.memberSkipped t plan
  | .constructor _ => []

variable {d : Document} {plan : Plan}

theorem linesAfter_eq (d : Document) (plan : Plan) :
    plan.linesAfter d = insertAll (plan.fragments d.text) (Line.read d.text) := by
  have hne := (Line.reads_read d.text).ne_nil
  cases plan with
  | constructor plan => rfl
  | member plan =>
    simp only [linesAfter, fragments, missing, Action.memberFragments, List.filter_cons,
      List.filter_nil]
    cases Action.present d.text plan.member.declaration <;>
      cases Action.present d.text plan.member.assignment <;>
      simp [insertAll, Line.insertAbove_nil, Line.insertAbove_ne_nil, hne]

section Member

variable {plan : MemberPlan} {c b : Nat}

theorem edits_member_eq (hc : plan.constructorStart = ⟨c, 0⟩) (hb : plan.bodyStart = ⟨b, 0⟩)
    (t : Text) : (Plan.member plan).edits t =
      Document.insertions ((Plan.member plan).fragments t) := by
  have hp : ∀ f ∈ Action.memberFragments plan, (⟨f.1.line.toNat, 0⟩ : Position) = f.1 := by
    simp only [Action.memberFragments, hc, hb, List.forall_mem_cons]
    exact ⟨rfl, rfl, by simp⟩
  simp only [edits, fragments, Action.memberEdits, Document.insertions, List.map_map]
  refine List.map_congr_left fun f hf => ?_
  simp only [Function.comp, hp f (List.mem_filter.mp hf).1]

theorem fragments_member_sublist (hc : plan.constructorStart = ⟨c, 0⟩)
    (hb : plan.bodyStart = ⟨b, 0⟩) (t : Text) :
    List.Sublist ((Plan.member plan).fragments t)
      [(c, plan.member.declaration), (b, plan.member.assignment)] := by
  have hall : (Action.memberFragments plan).map (fun f => (f.1.line.toNat, f.2)) =
      [(c, plan.member.declaration), (b, plan.member.assignment)] := by
    simp only [Action.memberFragments, hc, hb, List.map_cons, List.map_nil]
    rfl
  rw [← hall]
  exact List.filter_sublist.map _

end Member

theorem edits_eq (h : plan.Fits d) :
    plan.edits d.text = Document.insertions (plan.fragments d.text) := by
  cases plan with
  | constructor plan => rfl
  | member plan =>
    obtain ⟨c, b, hc, hb, -⟩ := h.exists_lines
    exact edits_member_eq hc hb d.text

theorem fragments_fit (h : plan.Fits d) :
    ((plan.fragments d.text).Pairwise fun f g => f.1 < g.1) ∧
      ∀ f ∈ plan.fragments d.text, f.1 ≤ d.lineCount ∧ Line.IsFragment f.2 ∧
        0 < (Line.ofFragment f.2).length := by
  cases plan with
  | constructor plan =>
    refine ⟨List.pairwise_singleton _ _, ?_⟩
    intro f hf
    obtain rfl := List.mem_singleton.mp hf
    have hlen : (Line.ofFragment plan.text).length = _ := h.length_text
    exact ⟨Nat.le_of_lt h.insertionLine_lt, h.text, by rw [hlen]; omega⟩
  | member plan =>
    obtain ⟨c, b, hc, hb, hle, line, hl, -⟩ := h.exists_lines
    have hcount : b < d.lineCount := (List.getElem?_eq_some_iff.mp hl).1
    have hsub := fragments_member_sublist (b := b + 1) hc hb d.text
    refine ⟨List.Pairwise.sublist hsub (by simp; omega), ?_⟩
    intro f hf
    rcases List.mem_cons.mp (hsub.subset hf) with rfl | hf
    · have hone : Line.IsOneLine plan.member.declaration := h.declaration
      exact ⟨by dsimp only; omega, hone.isFragment, by simp [hone.length_ofFragment]⟩
    · obtain rfl := List.mem_singleton.mp hf
      have hone : Line.IsOneLine plan.member.assignment := h.assignment
      exact ⟨hcount, hone.isFragment, by simp [hone.length_ofFragment]⟩

/-- The edits of a plan are accepted, and bring its lines into the document. -/
theorem applyEdits_edits (h : plan.Fits d) :
    ∃ t, d.applyEdits (plan.edits d.text) = .ok t ∧ Line.Reads t (plan.linesAfter d) := by
  obtain ⟨ho, hf⟩ := fragments_fit h
  have hr := Line.reads_read d.text
  rw [edits_eq h, linesAfter_eq]
  refine Document.applyEdits_insertions hr ho (fun f hm => ?_) fun f hm => (hf f hm).2.1
  rw [← Document.lineCount_eq hr]
  exact (hf f hm).1

/-- Every edit brings in at least one line. -/
theorem length_lt_linesAfter (h : plan.Fits d) (he : plan.edits d.text ≠ []) :
    (Line.read d.text).length < (plan.linesAfter d).length := by
  rw [edits_eq h] at he
  obtain ⟨-, hf⟩ := fragments_fit h
  rw [linesAfter_eq]
  cases hp : plan.fragments d.text with
  | nil => simp [hp, Document.insertions] at he
  | cons f fs =>
    exact Line.length_lt_insertAll (Line.reads_read d.text).ne_nil f fs (hf f (by simp [hp])).2.2

theorem linesAfter_eq_of_nil (h : plan.Fits d) (he : plan.edits d.text = []) :
    plan.linesAfter d = Line.read d.text := by
  rw [edits_eq h] at he
  rw [linesAfter_eq, List.map_eq_nil_iff.mp he]
  rfl

end Plan

/-- Whether the host indents what a plan has changed. -/
def Host.lays (host : Host) : Bool := host.settings.reformat && host.formats

/-- The lines that are left of a document's lines when they have been committed. -/
structure Host.Finishes (host : Host) (ls ms : List Line) : Prop where
  unindented_eq : ms.map unindented = ls.map unindented
  eq_of_not_lays : host.lays = false → ms = ls

/-- What carrying out a plan on a document comes to. -/
structure Plan.Carried (host : Host) (d : Document) (plan : Plan) (outcome : Outcome Memory)
    (applied : Applied) (ms : List Line) : Prop where
  result : outcome.result = .ok applied
  skipped : applied.skipped = plan.skipped d.text
  sink : outcome.sink.textAfter d.text = applied.document.text
  reads : Line.Reads applied.document.text ms
  finishes : host.Finishes (plan.linesAfter d) ms
  changed : applied.changed = true ↔ plan.edits d.text ≠ []

namespace Action

variable {host : Host} {a : Applied} {m : Memory} {t : Text} {ls : List Line}

theorem memorySink_apply {d : Document} {edits : List Edit} (h : d.applyEdits edits = .ok t) :
    (memorySink none).apply d edits m =
      (.ok (d.withText t), ⟨m.batches ++ [edits], some (d.withText t)⟩) := by
  simp [memorySink, memorySink.accept, Document.edited_eq_ok_iff.mpr h]

/-- A batch that fits is committed, and the lines that it leaves are only indented. -/
theorem commit_memorySink (hk : 1 ≤ host.settings.tabSize) (he : a.edits ≠ [])
    (ha : a.document.applyEdits a.edits = .ok t) (hr : Line.Reads t ls) :
    ∃ applied m' ms, commit host (memorySink none) a m = ⟨.ok applied, [], m'⟩ ∧
      m'.document = some applied.document ∧ applied.edits = a.edits ∧
      applied.skipped = a.skipped ∧ Line.Reads applied.document.text ms ∧ host.Finishes ls ms := by
  have hne : a.edits.isEmpty = false := by simpa using he
  unfold commit
  rw [hne, memorySink_apply ha]
  simp only [Bool.false_eq_true, if_false]
  have hlays : (host.settings.reformat && host.formats) = host.lays := rfl
  rw [hlays]
  cases hl : host.lays with
  | false => exact ⟨_, _, ls, rfl, rfl, rfl, rfl, hr, rfl, fun _ => rfl⟩
  | true =>
    obtain ⟨edits, d', hp, hd', -⟩ := Layout.exists_pass (d := a.document.withText t) hk hr
    have hu : (Layout.laidOut host.settings.tabSize ls).map unindented = ls.map unindented :=
      Layout.unindented_relaid (Layout.isUnit_unitFor hk _) {} ls
    rw [if_pos rfl, hp.format_eq]
    cases edits with
    | nil =>
      rw [hp.eq_of_nil] at hd'
      exact ⟨_, _, _, rfl, rfl, rfl, rfl, hd', hu, by simp [hl]⟩
    | cons e es =>
      simp only [memorySink_apply hp.applyEdits_eq]
      exact ⟨_, _, _, rfl, rfl, rfl, rfl, hd', hu, by simp [hl]⟩

theorem changed_of_edits {a : Applied} (h : a.edits ≠ []) : a.changed = true := by
  cases he : a.edits with
  | nil => exact absurd he h
  | cons e es => simp [Applied.changed, he]

/-- What an action sets out to do. -/
def proposed (a : Action) : Applied :=
  { command := a.command
    edits := a.plan.edits a.document.text
    skipped := a.plan.skipped a.document.text
    document := a.document }

/-- What is committed for an action are the edits of its plan. -/
theorem execute_eq (host : Host) {a : Action} (hc : a.command = a.plan.command) {σ : Type}
    (sink : Sink σ) (s : σ) (room : Text.Room := none) :
    (a.execute host sink s room).result = (commit host sink a.proposed s room).result ∧
      (a.execute host sink s room).sink = (commit host sink a.proposed s room).sink := by
  obtain ⟨title, command, plan, d⟩ := a
  obtain rfl : command = plan.command := hc
  cases plan with
  | member plan => exact ⟨rfl, rfl⟩
  | constructor plan => exact ⟨rfl, rfl⟩

/-- An action without edits commits nothing. -/
theorem execute_of_nil (host : Host) {a : Action} (hc : a.command = a.plan.command)
    (he : a.plan.edits a.document.text = []) {σ : Type} (sink : Sink σ) (s : σ) :
    (a.execute host sink s).result = .ok a.proposed ∧ (a.execute host sink s).sink = s := by
  obtain ⟨hr, hs⟩ := execute_eq host hc sink s
  have hcommit : commit host sink a.proposed s = ⟨.ok a.proposed, [], s⟩ := by
    unfold commit
    rw [if_pos]
    simp [proposed, he]
  rw [hr, hs, hcommit]
  exact ⟨rfl, rfl⟩

/-- Every action whose plan fits its document is carried out. -/
theorem exists_carried {a : Action} (hk : 1 ≤ host.settings.tabSize)
    (hc : a.command = a.plan.command) (hf : a.plan.Fits a.document) :
    ∃ applied ms, a.plan.Carried host a.document (a.execute host (memorySink none) {})
      applied ms := by
  by_cases he : a.plan.edits a.document.text = []
  · obtain ⟨hr, hs⟩ := execute_of_nil host hc he (memorySink none) {}
    refine ⟨a.proposed, Line.read a.document.text, hr, rfl, ?_, Line.reads_read _, ?_, ?_⟩
    · rw [hs]
      rfl
    · rw [Plan.linesAfter_eq_of_nil hf he]
      exact ⟨rfl, fun _ => rfl⟩
    · simp [Applied.changed, proposed, he]
  · obtain ⟨t, ht, hr⟩ := Plan.applyEdits_edits hf
    obtain ⟨hresult, hsink⟩ := execute_eq host hc (memorySink none) {}
    obtain ⟨applied, m', ms, hcommit, hm, hedits, hskipped, hms, hfin⟩ :=
      commit_memorySink (a := a.proposed) (m := {}) hk he ht hr
    rw [hcommit] at hresult hsink
    refine ⟨applied, ms, hresult, hskipped, ?_, hms, hfin, ?_⟩
    · simp [hsink, Memory.textAfter, hm]
    · exact ⟨fun _ => he, fun _ => changed_of_edits (by rw [hedits]; exact he)⟩

/-- Carrying out an offered action keeps all lines of the document in their order, each with its
line break, and adds those of its plan. It says that it has changed something exactly if the text
is another one. -/
theorem execute_keeps_every_line (d : Document) (p : Position) (s : Settings) (host : Host)
    (a : Action) (hk : 1 ≤ host.settings.tabSize) (hf : CodePoint.char '\n' ∉ s.privatePrefix)
    (h : a ∈ d.actionsAt p s) :
    ∃ applied, (a.execute host (memorySink none) {}).result = .ok applied ∧
      (a.execute host (memorySink none) {}).sink.textAfter d.text = applied.document.text ∧
      (Line.read applied.document.text).map unindented = (a.plan.linesAfter d).map unindented ∧
      a.plan.Fits d ∧ applied.skipped = a.plan.skipped d.text ∧
      (applied.changed = true ↔ applied.document.text ≠ d.text) := by
  obtain ⟨rfl, hfits, hc⟩ := Document.fits_of_mem_actionsAt hf h
  obtain ⟨applied, ms, done⟩ := exists_carried hk hc hfits
  have hu := done.finishes.unindented_eq
  refine ⟨applied, done.result, done.sink, ?_, hfits, done.skipped, ?_⟩
  · rw [done.reads.read_eq, hu]
  · rw [done.changed]
    constructor
    · intro he ht
      -- the lines are more than before
      have hlt := Plan.length_lt_linesAfter hfits he
      have hlen := congrArg List.length hu
      rw [List.length_map, List.length_map, ← done.reads.read_eq, ht] at hlen
      omega
    · intro ht he
      have hd := (execute_of_nil host hc he (memorySink none) {}).1
      rw [done.result, Except.ok.injEq] at hd
      exact ht (by rw [hd]; rfl)

/-- Where the brace is on the last line, the assignment goes on that line. -/
theorem execute_keeps_every_line_above_end :
    ∃ d : Document, d = { text := "public class A\n\x7b\n\r\npublic A(int x) \x7b" } ∧
      ∃ a ∈ d.actionsAt ⟨3, 13⟩ {}, a.plan.linesAfter d =
        [⟨"public class A", ['\n']⟩, ⟨"\x7b", ['\n']⟩, ⟨"private readonly int x;", ['\r', '\n']⟩,
          ⟨[], ['\r', '\n']⟩, ⟨"public A(int x) \x7b    this.x = x;", ['\r', '\n']⟩, ⟨[], []⟩] ∧
      (1 : Int) ≤ ({} : Host).settings.tabSize ∧
      CodePoint.char '\n' ∉ ({} : Settings).privatePrefix ∧
      ∃ applied, (a.execute {} (memorySink none) {}).result = .ok applied ∧
        (a.execute {} (memorySink none) {}).sink.textAfter d.text = applied.document.text ∧
        (Line.read applied.document.text).map unindented = (a.plan.linesAfter d).map unindented ∧
        a.plan.Fits d ∧ applied.skipped = a.plan.skipped d.text ∧
        (applied.changed = true ↔ applied.document.text ≠ d.text) := by
  refine ⟨_, rfl, ?_⟩
  obtain ⟨a, ha, hl⟩ : ∃ a ∈ Document.actionsAt
      { text := "public class A\n\x7b\n\r\npublic A(int x) \x7b" } ⟨3, 13⟩ {},
      a.plan.linesAfter { text := "public class A\n\x7b\n\r\npublic A(int x) \x7b" } =
        [⟨"public class A", ['\n']⟩, ⟨"\x7b", ['\n']⟩, ⟨"private readonly int x;", ['\r', '\n']⟩,
          ⟨[], ['\r', '\n']⟩, ⟨"public A(int x) \x7b    this.x = x;", ['\r', '\n']⟩, ⟨[], []⟩] := by
    decide +kernel
  exact ⟨a, ha, hl, by decide, by decide,
    execute_keeps_every_line _ ⟨3, 13⟩ {} {} a (by decide) (by decide) ha⟩

end Action

end CSharpActions
