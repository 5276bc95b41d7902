import CSharpActions.CommandLine.Error
import CSharpActions.Proofs.Action.Placement
import CSharpActions.Proofs.Codegen.Encoding
import CSharpActions.Proofs.Layout.Indentation
import CSharpActions.Proofs.Workspace.Replacement

/-!
# Batches that may fail

A commit gives its sink at most two batches, and the second one only if the first one was accepted.
Each batch is carried out as a whole or not at all, whatever fails and whatever others do to the
files in between.
-/
namespace CSharpActions

open Text.Utf8 (Encodable encode?)

/-- What a pass writes can be encoded, whatever it was given. -/
theorem Layout.encodable_of_mem_format {d : Document} {tabSize : Int} {edits : List Edit}
    (h : Layout.format d tabSize = .ok edits) {e : Edit} (he : e ∈ edits) :
    Encodable e.newText :=
  Codegen.encodable_of_isIndent fun _ hc => Layout.isIndent_of_mem_format h he hc

variable {σ : Type}

/-- A batch that a sink was given, its answer, and its state before and after. -/
structure Attempt (σ : Type) where
  document : Document
  edits : List Edit
  before : σ
  answer : Except SinkError Document
  after : σ

/-- The sink with a record of the batches that it was given. -/
def Sink.recorded (sink : Sink σ) : Sink (σ × List (Attempt σ)) where
  apply d edits s :=
    let out := sink.apply d edits s.1
    (out.1, out.2, s.2 ++ [⟨d, edits, s.1, out.1, out.2⟩])

namespace Action

def attempts (host : Host) (sink : Sink σ) (a : Applied) (s : σ) : List (Attempt σ) :=
  (commit host sink.recorded a (s, [])).sink.2

/-- The ways in which a commit goes, each with its outcome and the batches that the sink was
given. -/
inductive History (host : Host) (sink : Sink σ) (a : Applied) (s : σ) :
    Outcome σ → List (Attempt σ) → Prop
  | idle (hn : a.edits = []) : History host sink a s ⟨.ok a, [], s⟩ []
  | failed {e : SinkError} {s₁ : σ}
      (first : sink.apply a.document a.edits s = (.error e, s₁)) :
      History host sink a s (fail a.command e s₁) [⟨a.document, a.edits, s, .error e, s₁⟩]
  | plain {d₁ : Document} {s₁ : σ} (first : sink.apply a.document a.edits s = (.ok d₁, s₁)) :
      History host sink a s ⟨.ok { a with document := d₁ }, [], s₁⟩
        [⟨a.document, a.edits, s, .ok d₁, s₁⟩]
  | stopped {d₁ : Document} {s₁ : σ} {e : Layout.Failure} (lays : host.lays = true)
      (first : sink.apply a.document a.edits s = (.ok d₁, s₁))
      (format_eq : Layout.format d₁ host.settings.tabSize = .error e) :
      History host sink a s ⟨.error (ofLayout e), [], s₁⟩ [⟨a.document, a.edits, s, .ok d₁, s₁⟩]
  | layoutFailed {d₁ : Document} {s₁ s₂ : σ} {edits : List Edit} {e : SinkError}
      (lays : host.lays = true) (first : sink.apply a.document a.edits s = (.ok d₁, s₁))
      (format_eq : Layout.format d₁ host.settings.tabSize = .ok edits)
      (second : sink.apply d₁ edits s₁ = (.error e, s₂)) :
      History host sink a s (fail a.command e s₂)
        [⟨a.document, a.edits, s, .ok d₁, s₁⟩, ⟨d₁, edits, s₁, .error e, s₂⟩]
  | laidOut {d₁ d₂ : Document} {s₁ s₂ : σ} {edits : List Edit}
      (lays : host.lays = true) (first : sink.apply a.document a.edits s = (.ok d₁, s₁))
      (format_eq : Layout.format d₁ host.settings.tabSize = .ok edits)
      (second : sink.apply d₁ edits s₁ = (.ok d₂, s₂)) :
      History host sink a s ⟨.ok { a with document := d₂, formatEdits := edits }, [], s₂⟩
        [⟨a.document, a.edits, s, .ok d₁, s₁⟩, ⟨d₁, edits, s₁, .ok d₂, s₂⟩]

theorem sink_fail (command : Text) (e : SinkError) (s : σ) : (fail command e s).sink = s := by
  cases e <;> rfl

theorem history_commit (host : Host) (sink : Sink σ) (a : Applied) (s : σ) :
    History host sink a s (commit host sink a s) (attempts host sink a s) := by
  unfold attempts commit
  by_cases he : a.edits = []
  · rw [he]
    exact .idle he
  have hne : a.edits.isEmpty = false := by simpa using he
  rw [hne]
  simp only [Bool.false_eq_true, if_false, Sink.recorded, List.nil_append]
  cases h₁ : sink.apply a.document a.edits s with
  | mk r₁ s₁ =>
    cases r₁ with
    | error e =>
      simp only [sink_fail]
      exact .failed h₁
    | ok d₁ =>
      dsimp only
      split
      · rename_i hl
        cases hf : Layout.format d₁ host.settings.tabSize with
        | error e => exact .stopped hl h₁ hf
        | ok edits =>
          cases edits with
          | nil => exact .plain h₁
          | cons x xs =>
            dsimp only
            cases h₂ : sink.apply d₁ (x :: xs) s₁ with
            | mk r₂ s₂ =>
              cases r₂ with
              | error e =>
                simp only [sink_fail]
                exact .layoutFailed hl h₁ hf h₂
              | ok d₂ => exact .laidOut hl h₁ hf h₂
      · exact .plain h₁

/-- What the host is told of the answers of a sink: a result if all batches were accepted, and one
message if one was rejected. -/
structure Reported (command : Text) (outcome : Outcome σ) (tried : List (Attempt σ)) : Prop where
  accepted : ∀ r, outcome.result = .ok r → ∀ x ∈ tried, ∃ d, x.answer = .ok d
  rejected : ∀ x ∈ tried, ∀ why, x.answer = .error (.rejected why) →
    outcome.result = .error (.rejected command why) ∧
      outcome.messages = [⟨.error, (ApplyError.rejected command why).message⟩] ∧
      (CommandError.ofApply (.rejected command why)).exitCode = 7

variable {host : Host} {sink : Sink σ} {a : Applied} {s : σ} {outcome : Outcome σ}
  {tried : List (Attempt σ)}

theorem reported_fail {command : Text} {e : SinkError} (before : List (Attempt σ))
    {x : Attempt σ} (hb : ∀ y ∈ before, ∃ d, y.answer = .ok d) (hx : x.answer = .error e) :
    Reported command (fail command e s) (before ++ [x]) := by
  refine ⟨?_, ?_⟩
  · intro r hr
    cases e <;> simp [fail, ofSinkError] at hr
  · intro y hy why hw
    rcases List.mem_append.mp hy with hy | hy
    · obtain ⟨d, hd⟩ := hb y hy
      simp [hd] at hw
    · obtain rfl := List.mem_singleton.mp hy
      rw [hx, Except.error.injEq] at hw
      subst hw
      exact ⟨rfl, rfl, rfl⟩

theorem reported_of_accepted {command : Text} (h : ∀ y ∈ tried, ∃ d, y.answer = .ok d) :
    Reported command outcome tried := by
  refine ⟨fun _ _ => h, ?_⟩
  intro x hx why hw
  obtain ⟨d, hd⟩ := h x hx
  simp [hd] at hw

theorem History.reported (h : History host sink a s outcome tried) :
    Reported a.command outcome tried := by
  cases h with
  | idle => exact reported_of_accepted (by simp)
  | failed first => exact reported_fail [] (by simp) rfl
  | plain first => exact reported_of_accepted (by simp)
  | stopped lays first => exact reported_of_accepted (by simp)
  | layoutFailed lays first format_eq second => exact reported_fail [_] (by simp) rfl
  | laidOut lays first format_eq second => exact reported_of_accepted (by simp)

/-- What holds of the first batch, and of each batch that indents a result of the first one, holds
of all batches. -/
theorem History.forall_batches (h : History host sink a s outcome tried)
    {p : Document → List Edit → Prop} (hp : p a.document a.edits)
    (hf : ∀ d₁ s₁ edits, sink.apply a.document a.edits s = (.ok d₁, s₁) →
      Layout.format d₁ host.settings.tabSize = .ok edits → p d₁ edits) :
    ∀ x ∈ tried, p x.document x.edits ∧
      sink.apply x.document x.edits x.before = (x.answer, x.after) := by
  cases h with
  | idle => simp
  | failed first => simpa using ⟨hp, first⟩
  | plain first => simpa using ⟨hp, first⟩
  | stopped lays first => simpa using ⟨hp, first⟩
  | layoutFailed lays first format_eq second =>
    simpa using ⟨⟨hp, first⟩, hf _ _ _ first format_eq, second⟩
  | laidOut lays first format_eq second =>
    simpa using ⟨⟨hp, first⟩, hf _ _ _ first format_eq, second⟩

theorem History.exists_first (h : History host sink a s outcome tried) (he : a.edits ≠ []) :
    ∃ x rest, tried = x :: rest ∧ x.document = a.document ∧ x.edits = a.edits ∧ x.before = s := by
  cases h with
  | idle hn => exact absurd hn he
  | failed first => exact ⟨_, _, rfl, rfl, rfl, rfl⟩
  | plain first => exact ⟨_, _, rfl, rfl, rfl, rfl⟩
  | stopped lays first => exact ⟨_, _, rfl, rfl, rfl, rfl⟩
  | layoutFailed lays first format_eq second => exact ⟨_, _, rfl, rfl, rfl, rfl⟩
  | laidOut lays first format_eq second => exact ⟨_, _, rfl, rfl, rfl, rfl⟩

end Action

/-- What happens around a batch: what others do to the files before it, and which operations fail
during it. -/
structure Turn where
  interference : FileTree → FileTree := id
  faults : Faults := {}

/-- Files, and the turns that are to come. -/
structure Disturbed where
  tree : FileTree
  turns : List Turn := []

namespace Disturbed

def turn (w : Disturbed) : Turn := w.turns.headD {}

def found (w : Disturbed) : FileTree := w.turn.interference w.tree

/-- The sink that writes to files, each time in the next turn. -/
def sink (cwd : Location) : Sink Disturbed where
  apply d edits w :=
    let out := Workspace.writeEdits cwd w.turn.faults d edits w.found
    (out.1, ⟨out.2, w.turns.tail⟩)

theorem sink_apply (cwd : Location) (d : Document) (edits : List Edit) (w : Disturbed) :
    (sink cwd).apply d edits w =
      ((Workspace.writeEdits cwd w.turn.faults d edits w.found).1,
        ⟨(Workspace.writeEdits cwd w.turn.faults d edits w.found).2, w.turns.tail⟩) := rfl

end Disturbed

/-- The batch was accepted and its file has the new text, or it failed and all files are as they
were found. No other file is touched in either case. -/
def Attempt.IsAllOrNothing (cwd : Location) (x : Attempt Disturbed) : Prop :=
  (∃ path text content, x.document.path = some path ∧ x.document.applyEdits x.edits = .ok text ∧
    encode? text = some content ∧ x.answer = .ok (x.document.withText text) ∧
    x.after.tree.contentAt cwd path = .ok content ∧
    ∀ l, l ≠ Path.resolve cwd path → x.after.tree.node? l = x.before.found.node? l) ∨
  ∃ e, x.answer = .error e ∧ x.after.tree = x.before.found

namespace Action

variable {cwd : Location}

theorem isAllOrNothing_of_apply {x : Attempt Disturbed}
    (hx : (Disturbed.sink cwd).apply x.document x.edits x.before = (x.answer, x.after))
    (hu : ∀ e ∈ x.edits, Encodable e.newText) : x.IsAllOrNothing cwd := by
  obtain ⟨d, edits, w, answer, after⟩ := x
  have hw := Workspace.written_writeEdits cwd w.turn.faults d edits w.found
  simp only [Disturbed.sink_apply] at hx
  generalize Workspace.writeEdits cwd w.turn.faults d edits w.found = out at hw hx
  obtain ⟨rfl, rfl⟩ := Prod.mk.inj hx
  cases hw with
  | refused => exact Or.inr ⟨_, rfl, rfl⟩
  | unencodable ready encoded =>
    obtain ⟨bytes, hb⟩ := (ready.encodable hu).exists_bytes
    simp [hb] at encoded
  | accepted ready encoded =>
    obtain ⟨old, ho, -⟩ := ready.exists_content
    obtain ⟨-, -, hne⟩ := FileTree.exists_of_contentAt ho
    refine Or.inl ⟨_, _, _, ready.path_eq, ready.applyEdits_eq, encoded, rfl, ?_, ?_⟩
    · exact FileTree.contentAt_put ho _
    · intro l hl
      rw [FileTree.node?_put hne, if_neg hl]

/-- Whatever fails and whatever others do, a commit carries out each of its batches as a whole or
not at all, and the host is told which of the two. -/
structure WholeOrNothing (host : Host) (a : Applied) : Prop where
  attempted : ∀ cwd w, ∃ x rest, attempts host (Disturbed.sink cwd) a w = x :: rest ∧
    x.document = a.document ∧ x.edits = a.edits ∧ x.before = w
  isAllOrNothing : ∀ cwd w, ∀ x ∈ attempts host (Disturbed.sink cwd) a w, x.IsAllOrNothing cwd
  reported : ∀ {σ : Type} (sink : Sink σ) (s : σ),
    Reported a.command (commit host sink a s) (attempts host sink a s)

/-- Commits of texts that can be encoded are atomic. -/
theorem commit_wholeOrNothing (host : Host) (a : Applied) (he : a.edits ≠ [])
    (hu : ∀ e ∈ a.edits, Encodable e.newText) : WholeOrNothing host a := by
  refine ⟨?_, ?_, fun sink s => (history_commit host sink a s).reported⟩
  · intro cwd w
    exact (history_commit host (Disturbed.sink cwd) a w).exists_first he
  · intro cwd w x hx
    have hformat : ∀ d edits, Layout.format d host.settings.tabSize = .ok edits →
        ∀ e ∈ edits, Encodable e.newText :=
      fun d edits hf e hm => Layout.encodable_of_mem_format hf hm
    obtain ⟨hp, happly⟩ := (history_commit host _ a w).forall_batches
      (p := fun _ edits => ∀ e ∈ edits, Encodable e.newText) hu
      (fun d _ edits _ hf => hformat d edits hf) x hx
    exact isAllOrNothing_of_apply happly hp

theorem commit_wholeOrNothing_of_offered :
    ∃ a ∈ Document.actionsAt ⟨"class A\n\x7b\npublic A(int x) \x7b\x7d\x7d", some "A.cs"⟩ ⟨2, 13⟩ {},
      a.proposed.edits ≠ [] ∧ (∀ e ∈ a.proposed.edits, Encodable e.newText) ∧
        WholeOrNothing {} a.proposed := by
  obtain ⟨a, ha, he, hu⟩ : ∃ a ∈ Document.actionsAt
      ⟨"class A\n\x7b\npublic A(int x) \x7b\x7d\x7d", some "A.cs"⟩ ⟨2, 13⟩ {},
      a.proposed.edits ≠ [] ∧ ∀ e ∈ a.proposed.edits, Encodable e.newText := by
    decide +kernel
  exact ⟨a, ha, he, hu, commit_wholeOrNothing {} a.proposed he hu⟩

theorem commit_eq_of_error {e : SinkError} {s₁ : σ} (he : a.edits ≠ [])
    (h : sink.apply a.document a.edits s = (.error e, s₁)) :
    commit host sink a s = fail a.command e s₁ := by
  have hne : a.edits.isEmpty = false := by simpa using he
  simp [commit, hne, h]

theorem attempts_eq_of_error {e : SinkError} {s₁ : σ} (he : a.edits ≠ [])
    (h : sink.apply a.document a.edits s = (.error e, s₁)) :
    attempts host sink a s = [⟨a.document, a.edits, s, .error e, s₁⟩] := by
  have hne : a.edits.isEmpty = false := by simpa using he
  simp [attempts, commit, hne, Sink.recorded, h, sink_fail]

theorem exists_writeEdits_of_placed {d : Document} {plan : Plan} {t : FileTree} {path : Text}
    (h : plan.Placed d) (hc : Workspace.Current cwd t d path)
    (hr : Workspace.HoldsTemp (Path.absolute cwd path).parent) {e : Edit}
    (hm : e ∈ plan.edits d.text) (hu : ¬ Encodable e.newText) :
    ∃ temp, t.node? temp = none ∧ temp ≠ [] ∧
      Workspace.writeEdits cwd {} d (plan.edits d.text) t =
        (.error .unencodable, t.put temp (.file [])) := by
  obtain ⟨text, ht, hins⟩ := h.exists_applyEdits
  have hnone : encode? text = none := by
    apply Text.Utf8.encode?_eq_none
    intro henc
    exact hu (henc.of_subset (hins.piece_subset (List.mem_map_of_mem hm)))
  obtain ⟨n, hfree, hw⟩ := Workspace.exists_writeEdits_eq ⟨hc, ht⟩ hr hnone
  exact ⟨_, hfree, by simp, hw⟩

theorem exists_attempt_of_unencodable (host : Host) {a : Action} {t : FileTree} {path : Text}
    (h : a.plan.Placed a.document) (hc : Workspace.Current cwd t a.document path)
    (hr : Workspace.HoldsTemp (Path.absolute cwd path).parent) {e : Edit}
    (hm : e ∈ a.proposed.edits) (hu : ¬ Encodable e.newText) :
    ∃ x ∈ attempts host (Disturbed.sink cwd) a.proposed ⟨t, []⟩,
      x.answer = .error .unencodable ∧ ¬ x.IsAllOrNothing cwd := by
  obtain ⟨temp, hfree, hroot, hw⟩ := exists_writeEdits_of_placed h hc hr hm hu
  have happly : (Disturbed.sink cwd).apply a.proposed.document a.proposed.edits ⟨t, []⟩ =
      (.error .unencodable, ⟨t.put temp (.file []), []⟩) := by
    have hf : (⟨t, []⟩ : Disturbed).found = t := rfl
    have hn : (⟨t, []⟩ : Disturbed).turn.faults = {} := rfl
    simp only [Disturbed.sink_apply, hf, hn, proposed, hw, List.tail_nil]
  rw [attempts_eq_of_error (List.ne_nil_of_mem hm) happly]
  refine ⟨_, List.mem_singleton_self _, rfl, ?_⟩
  rintro (⟨path, text, content, -, -, -, hok, -⟩ | ⟨e, -, htree⟩)
  · simp at hok
  · have hnode := FileTree.node?_put (t := t) hroot temp (.file [])
    rw [if_pos rfl] at hnode
    have hsame : (t.put temp (.file [])).node? temp = t.node? temp := congrArg (·.node? temp) htree
    simp [hnode, hfree] at hsame

/-- A prefix with half of a surrogate pair makes such a batch. -/
theorem commit_leaves_temporary_file :
    ∃ a ∈ Document.actionsAt ⟨"class A\n\x7b\npublic A(int x) \x7b\x7d\x7d", some "A.cs"⟩ ⟨2, 13⟩
        { privatePrefix := [.surrogate 0] },
      a.proposed.edits ≠ [] ∧
      ∃ x ∈ attempts {} (Disturbed.sink []) a.proposed
          ⟨⟨[(["A.cs"],
            .file ((encode? "class A\n\x7b\npublic A(int x) \x7b\x7d\x7d").getD []))]⟩, []⟩,
        x.answer = .error .unencodable ∧ ¬ x.IsAllOrNothing [] := by
  obtain ⟨a, ha, e, hm, hu⟩ : ∃ a ∈ Document.actionsAt
      ⟨"class A\n\x7b\npublic A(int x) \x7b\x7d\x7d", some "A.cs"⟩ ⟨2, 13⟩
        { privatePrefix := [.surrogate 0] },
      ∃ e ∈ a.proposed.edits, ¬ Encodable e.newText := by
    decide +kernel
  obtain ⟨hd, hplaced, -⟩ := Document.placed_of_mem_actionsAt ha
  rw [hd] at hplaced
  have hc : Workspace.Current [] ⟨[(["A.cs"],
      .file ((encode? "class A\n\x7b\npublic A(int x) \x7b\x7d\x7d").getD []))]⟩
      a.document "A.cs" := by
    rw [← hd]
    exact ⟨rfl, by decide +kernel⟩
  exact ⟨a, ha, List.ne_nil_of_mem hm, exists_attempt_of_unencodable {} hplaced hc (by decide) hm hu⟩

end Action

end CSharpActions
