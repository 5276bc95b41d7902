import CSharpActions.Proofs.Action.Reporting

/-!
# Interleaved runs

Any number of runs may work on one file, and others may write to it between any two of their steps.
A run loads the document once and then commits its batches one by one. Since each batch is compared
with the file before it is written, the file goes through exactly the accepted batches and the
writes of others.
-/
namespace CSharpActions

open Text.Utf8 (encode?)

/-! ## Runs in steps -/

abbrev Answer := Except SinkError Document

/-- A batch that a run asked for, and the answer that it got. -/
structure Batch where
  document : Document
  edits : List Edit
  answer : Answer

/-- All batches were accepted. -/
def AllAccepted (batches : List Batch) : Prop := ∀ b ∈ batches, ∃ d, b.answer = .ok d

/-- Where a run stands: it asks for a batch, or it has ended. -/
inductive Pause where
  | asks (d : Document) (edits : List Edit)
  | ended (result : Except ApplyError Applied)

namespace Action

/-- The sink that gives the answers prepared for it. A batch for which there is no answer left is
kept; the failure only stops the run there. -/
def promptSink : Sink (List Answer × Option (Document × List Edit)) where
  apply d edits s :=
    match s.1 with
    | answer :: rest => (answer, rest, s.2)
    | [] => (.error .unencodable, [], s.2.or (some (d, edits)))

/-- Where a run stands that the sink of prepared answers has brought to its outcome. -/
def pauseOf (outcome : Outcome (List Answer × Option (Document × List Edit))) : Pause :=
  match outcome.sink.2 with
  | some (d, edits) => .asks d edits
  | none => .ended outcome.result

/-- Where the run of an action stands after the given answers. -/
def pause (host : Host) (a : Action) (answers : List Answer) : Pause :=
  pauseOf (a.execute host promptSink (answers, none))

theorem pause_eq (host : Host) {a : Action} (hc : a.command = a.plan.command)
    (answers : List Answer) :
    a.pause host answers = pauseOf (commit host promptSink a.proposed (answers, none)) := by
  obtain ⟨hresult, hsink⟩ := execute_eq host hc promptSink (answers, none)
  rw [pause, pauseOf, hresult, hsink]
  rfl

theorem promptSink_apply_cons (d : Document) (edits : List Edit) (answer : Answer)
    (rest : List Answer) (q : Option (Document × List Edit)) :
    promptSink.apply d edits (answer :: rest, q) = (answer, rest, q) := rfl

theorem promptSink_apply_nil (d : Document) (edits : List Edit) :
    promptSink.apply d edits ([], none) = (.error .unencodable, [], some (d, edits)) := rfl

theorem pauseOf_fail (command : Text) (e : SinkError) (rest : List Answer) :
    pauseOf (fail command e (rest, none)) = .ended (.error (ofSinkError command e)) := by
  cases e <;> rfl

/-- The edits that indent a document, if the host does that. -/
def layout (host : Host) (d : Document) : Except Layout.Failure (List Edit) :=
  if host.lays then Layout.format d host.settings.tabSize else .ok []

variable {host : Host} {a : Applied} {σ : Type} {sink : Sink σ} {s s₁ : σ} {d₁ : Document}

theorem commit_eq_of_nil (he : a.edits = []) : commit host sink a s = ⟨.ok a, [], s⟩ := by
  simp [commit, he]

theorem commit_eq_of_ok (he : a.edits ≠ []) (h : sink.apply a.document a.edits s = (.ok d₁, s₁)) :
    commit host sink a s =
      match layout host d₁ with
      | .error e => ⟨.error (ofLayout e), [], s₁⟩
      | .ok [] => ⟨.ok { a with document := d₁ }, [], s₁⟩
      | .ok edits =>
        match sink.apply d₁ edits s₁ with
        | (.error e, s₂) => fail a.command e s₂
        | (.ok d₂, s₂) => ⟨.ok { a with document := d₂, formatEdits := edits }, [], s₂⟩ := by
  have hne : a.edits.isEmpty = false := by simpa using he
  by_cases hl : host.lays
  · rw [layout, if_pos hl]
    rw [Host.lays] at hl
    cases hf : Layout.format d₁ host.settings.tabSize with
    | error e => simp only [commit, hne, h, hl, hf, if_true, Bool.false_eq_true, if_false]
    | ok edits =>
      cases edits with
      | nil => simp only [commit, hne, h, hl, hf, if_true, Bool.false_eq_true, if_false]
      | cons x xs =>
        cases h₂ : sink.apply d₁ (x :: xs) s₁ with
        | mk r₂ s₂ =>
          cases r₂ <;>
            simp only [commit, hne, h, hl, hf, h₂, if_true, Bool.false_eq_true, if_false]
  · rw [layout, if_neg hl]
    rw [Host.lays] at hl
    simp only [commit, hne, h, hl, Bool.false_eq_true, if_false]

/-- The batches of a run, and where it stands after them. -/
inductive Course (host : Host) (a : Applied) : List Batch → Pause → Prop
  | idle (he : a.edits = []) : Course host a [] (.ended (.ok a))
  | ready (he : a.edits ≠ []) : Course host a [] (.asks a.document a.edits)
  | failed {e : SinkError} (he : a.edits ≠ []) :
      Course host a [⟨a.document, a.edits, .error e⟩] (.ended (.error (ofSinkError a.command e)))
  | stopped {d₁ : Document} {e : Layout.Failure} (he : a.edits ≠ [])
      (hl : layout host d₁ = .error e) :
      Course host a [⟨a.document, a.edits, .ok d₁⟩] (.ended (.error (ofLayout e)))
  | plain {d₁ : Document} (he : a.edits ≠ []) (hl : layout host d₁ = .ok []) :
      Course host a [⟨a.document, a.edits, .ok d₁⟩] (.ended (.ok { a with document := d₁ }))
  | laying {d₁ : Document} {edits : List Edit} (he : a.edits ≠ []) (hn : edits ≠ [])
      (hl : layout host d₁ = .ok edits) :
      Course host a [⟨a.document, a.edits, .ok d₁⟩] (.asks d₁ edits)
  | layoutFailed {d₁ : Document} {edits : List Edit} {e : SinkError} (he : a.edits ≠ [])
      (hn : edits ≠ []) (hl : layout host d₁ = .ok edits) :
      Course host a [⟨a.document, a.edits, .ok d₁⟩, ⟨d₁, edits, .error e⟩]
        (.ended (.error (ofSinkError a.command e)))
  | laidOut {d₁ d₂ : Document} {edits : List Edit} (he : a.edits ≠ []) (hn : edits ≠ [])
      (hl : layout host d₁ = .ok edits) :
      Course host a [⟨a.document, a.edits, .ok d₁⟩, ⟨d₁, edits, .ok d₂⟩]
        (.ended (.ok { a with document := d₂, formatEdits := edits }))

variable {batches : List Batch} {p : Pause}

theorem Course.pauseOf_eq (h : Course host a batches p) :
    pauseOf (commit host promptSink a (batches.map (·.answer), none)) = p := by
  cases h with
  | idle he =>
    rw [commit_eq_of_nil he]
    rfl
  | ready he =>
    rw [List.map_nil, commit_eq_of_error he (promptSink_apply_nil ..)]
    rfl
  | failed he =>
    rw [List.map_singleton, commit_eq_of_error he (promptSink_apply_cons ..), pauseOf_fail]
  | stopped he hl =>
    rw [List.map_singleton, commit_eq_of_ok he (promptSink_apply_cons ..), hl]
    rfl
  | plain he hl =>
    rw [List.map_singleton, commit_eq_of_ok he (promptSink_apply_cons ..), hl]
    rfl
  | laying he hn hl =>
    obtain ⟨x, xs, rfl⟩ := List.exists_cons_of_ne_nil hn
    rw [List.map_singleton, commit_eq_of_ok he (promptSink_apply_cons ..), hl]
    rfl
  | @layoutFailed d₁ edits e he hn hl =>
    obtain ⟨x, xs, rfl⟩ := List.exists_cons_of_ne_nil hn
    rw [List.map_cons, commit_eq_of_ok he (promptSink_apply_cons ..), hl]
    exact pauseOf_fail a.command e []
  | laidOut he hn hl =>
    obtain ⟨x, xs, rfl⟩ := List.exists_cons_of_ne_nil hn
    rw [List.map_cons, commit_eq_of_ok he (promptSink_apply_cons ..), hl]
    rfl

theorem exists_course_nil (host : Host) (a : Applied) : ∃ p, Course host a [] p := by
  by_cases he : a.edits = []
  · exact ⟨_, .idle he⟩
  · exact ⟨_, .ready he⟩

/-- A run goes on after each answer. -/
theorem Course.exists_append {d : Document} {edits : List Edit}
    (h : Course host a batches (.asks d edits)) (answer : Answer) :
    ∃ p, Course host a (batches ++ [⟨d, edits, answer⟩]) p := by
  cases h with
  | ready he =>
    cases answer with
    | error e => exact ⟨_, .failed he⟩
    | ok d₁ =>
      cases hl : layout host d₁ with
      | error e => exact ⟨_, .stopped he hl⟩
      | ok edits =>
        by_cases hn : edits = []
        · exact ⟨_, .plain he (hn ▸ hl)⟩
        · exact ⟨_, .laying he hn hl⟩
  | laying he hn hl =>
    cases answer with
    | error e => exact ⟨_, .layoutFailed he hn hl⟩
    | ok d₂ => exact ⟨_, .laidOut he hn hl⟩

/-- A run that nobody interrupts takes one of these courses as well. -/
theorem course_attempts (host : Host) (sink : Sink σ) (a : Applied) (s : σ) :
    Course host a ((attempts host sink a s).map fun x => ⟨x.document, x.edits, x.answer⟩)
      (.ended (commit host sink a s).result) := by
  by_cases he : a.edits = []
  · rw [attempts, commit_eq_of_nil he, commit_eq_of_nil he]
    exact .idle he
  cases h₁ : sink.apply a.document a.edits s with
  | mk r₁ s₁ =>
    cases r₁ with
    | error e =>
      rw [attempts_eq_of_error he h₁, commit_eq_of_error he h₁]
      cases e <;> exact .failed he
    | ok d₁ =>
      have hr : sink.recorded.apply a.document a.edits (s, []) =
          (.ok d₁, s₁, [⟨a.document, a.edits, s, .ok d₁, s₁⟩]) := by
        simp only [Sink.recorded, h₁, List.nil_append]
      rw [attempts, commit_eq_of_ok he h₁, commit_eq_of_ok he hr]
      cases hl : layout host d₁ with
      | error e => exact .stopped he hl
      | ok edits =>
        cases edits with
        | nil => exact .plain he hl
        | cons x xs =>
          simp only [Sink.recorded]
          cases h₂ : sink.apply d₁ (x :: xs) s₁ with
          | mk r₂ s₂ =>
            cases r₂ with
            | error e =>
              rw [sink_fail]
              cases e <;> exact .layoutFailed he (List.cons_ne_nil x xs) hl
            | ok d₂ => exact .laidOut he (List.cons_ne_nil x xs) hl

theorem Course.accepted {applied : Applied} (hf : a.formatEdits = [])
    (h : Course host a batches (.ended (.ok applied))) :
    AllAccepted batches ∧
      batches.map (·.edits) = [applied.edits, applied.formatEdits].filter (· ≠ []) := by
  cases h with
  | idle he => simp [AllAccepted, he, hf]
  | plain he hl => simp [AllAccepted, he, hf]
  | laidOut he hn hl => simp [AllAccepted, he, hn]

theorem Course.rejected {command : Text} {why : Rejection}
    (h : Course host a batches (.ended (.error (.rejected command why)))) :
    ∃ before b, batches = before ++ [b] ∧ b.answer = .error (.rejected why) ∧
      AllAccepted before := by
  have heq : ∀ e, ofSinkError a.command e = .rejected command why → e = .rejected why := by
    intro e he
    cases e <;> simp [ofSinkError] at he
    rw [he.2]
  generalize hp : Pause.ended (.error (.rejected command why)) = p at h
  cases h with
  | idle | ready | plain | laying | laidOut => simp at hp
  | stopped he hl =>
    rename_i e
    cases e <;> simp [ofLayout] at hp
  | failed he =>
    obtain rfl := heq _ (Except.error.inj (Pause.ended.inj hp)).symm
    exact ⟨[], _, rfl, rfl, by simp [AllAccepted]⟩
  | layoutFailed he hn hl =>
    obtain rfl := heq _ (Except.error.inj (Pause.ended.inj hp)).symm
    exact ⟨[_], _, rfl, rfl, by simp [AllAccepted]⟩

end Action

/-- A batch that was computed from the text of its document: the edits of an action that is offered
there, or those that indent it. -/
inductive ComputedFrom (d : Document) : List Edit → Prop
  | plan {p : Position} {s : Settings} {a : Action} (offered : a ∈ d.actionsAt p s) :
      ComputedFrom d a.proposed.edits
  | layout {k : Int} {edits : List Edit} (format_eq : Layout.format d k = .ok edits) :
      ComputedFrom d edits

/-! ## Runs that share a file -/

/-- A run works in its own directory and names the file in its own way. -/
structure Site (target : Location) where
  cwd : Location
  path : Text
  resolve_eq : Path.resolve cwd path = target

/-- A run that has loaded its document and chosen an action. -/
structure Run where
  action : Action
  host : Host
  batches : List Batch := []

def Run.pause (r : Run) : Pause := r.action.pause r.host (r.batches.map (·.answer))

/-- The files, and the runs that have loaded their document. -/
structure Shared (ι : Type) where
  tree : FileTree
  runs : ι → Option Run := fun _ => none

/-- What happens to a shared file. -/
inductive Event (ι : Type) where
  | loaded (i : ι) (d : Document)
  | tried (i : ι) (b : Batch)
  /-- Someone else leaves another text there, or none. -/
  | wrote (text : Option Text)

/-- The text of the file at a location. -/
def FileTree.textAt (t : FileTree) (l : Location) : Option Text :=
  match t.node? l with
  | some (.file content) => some (Text.Utf8.decodeLossy content)
  | _ => none

variable {ι : Type} [DecidableEq ι] {target : Location}

/-- One step of one run, or of someone else. -/
inductive Step (sites : ι → Site target) : Shared ι → Event ι → Shared ι → Prop
  | load {w : Shared ι} (i : ι) (host : Host) {faults : Faults} {d : Document} {p : Position}
      {s : Settings} {a : Action} (new : w.runs i = none)
      (load_eq : Workspace.loadDocument { tree := w.tree, cwd := (sites i).cwd, faults }
        (sites i).path = .ok d)
      (offered : a ∈ d.actionsAt p s) :
      Step sites w (.loaded i d)
        { w with runs := Function.update w.runs i (some { action := a, host }) }
  | batch {w : Shared ι} (i : ι) {r : Run} {d : Document} {edits : List Edit} {faults : Faults}
      {answer : Answer} {t : FileTree} (running : w.runs i = some r)
      (asks : r.pause = .asks d edits)
      (write_eq : Workspace.writeEdits (sites i).cwd faults d edits w.tree = (answer, t)) :
      Step sites w (.tried i ⟨d, edits, answer⟩)
        { tree := t
          runs := Function.update w.runs i
            (some { r with batches := r.batches ++ [⟨d, edits, answer⟩] }) }
  | write {w : Shared ι} (t : FileTree) :
      Step sites w (.wrote (t.textAt target)) { w with tree := t }

/-- The events that lead from some files, with no run under way, to a state. -/
inductive Reaches (sites : ι → Site target) (t : FileTree) : List (Event ι) → Shared ι → Prop
  | start : Reaches sites t [] { tree := t }
  | step {events : List (Event ι)} {w w' : Shared ι} {e : Event ι}
      (before : Reaches sites t events w) (next : Step sites w e w') :
      Reaches sites t (events ++ [e]) w'

/-- What an event makes of the text of the file. A batch makes something of the text that it was
computed from, and of no other one. -/
inductive Event.Turns : Event ι → Option Text → Option Text → Prop
  | loaded {i : ι} {d : Document} : Turns (.loaded i d) (some d.text) (some d.text)
  | accepted {i : ι} {d d' : Document} {edits : List Edit} {text : Text}
      (applyEdits_eq : d.applyEdits edits = .ok text) :
      Turns (.tried i ⟨d, edits, .ok d'⟩) (some d.text) (some text)
  | refused {i : ι} {d : Document} {edits : List Edit} {e : SinkError} {text : Option Text} :
      Turns (.tried i ⟨d, edits, .error e⟩) text text
  | wrote {old new : Option Text} : Turns (.wrote new) old new

/-- The events in turn make one text of another. -/
inductive Replays : List (Event ι) → Option Text → Option Text → Prop
  | nil {text : Option Text} : Replays [] text text
  | append {events : List (Event ι)} {e : Event ι} {first text last : Option Text}
      (before : Replays events first text) (turns : e.Turns text last) :
      Replays (events ++ [e]) first last

/-- The batches that a run has tried. -/
def tries (i : ι) (events : List (Event ι)) : List Batch :=
  events.flatMap fun
    | .tried j b => if j = i then [b] else []
    | _ => []

/-- The file went through the writes of others and exactly the accepted batches. The batches of a
run that succeeded are among them, and those of a rejected run are up to the rejected one. -/
structure Serial (t : FileTree) (events : List (Event ι)) (w : Shared ι) (target : Location) :
    Prop where
  replays : Replays events (t.textAt target) (w.tree.textAt target)
  computed : ∀ i b, .tried i b ∈ events → ComputedFrom b.document b.edits
  succeeded : ∀ i r applied, w.runs i = some r → r.pause = .ended (.ok applied) →
    AllAccepted (tries i events) ∧
      (tries i events).map (·.edits) = [applied.edits, applied.formatEdits].filter (· ≠ [])
  rejected : ∀ i r command why, w.runs i = some r →
    r.pause = .ended (.error (.rejected command why)) →
    ∃ before b, tries i events = before ++ [b] ∧ b.answer = .error (.rejected why) ∧
      AllAccepted before

/-! ## Steps -/

/-- What every run keeps to. -/
structure Run.Fits (path : Text) (r : Run) : Prop where
  offered : ∃ p s, r.action ∈ r.action.document.actionsAt p s
  path_eq : r.action.document.path = some path
  course : Action.Course r.host r.action.proposed r.batches r.pause
  answers : ∀ b ∈ r.batches, ∀ d, b.answer = .ok d → d.path = some path

variable {path : Text} {r : Run} {d : Document} {edits : List Edit}

theorem Run.Fits.command_eq (h : r.Fits path) : r.action.command = r.action.plan.command := by
  obtain ⟨p, s, ha⟩ := h.offered
  exact (Document.placed_of_mem_actionsAt ha).2.2

theorem Run.fits_of_offered {p : Position} {s : Settings} {a : Action} (host : Host)
    (hp : d.path = some path) (ha : a ∈ d.actionsAt p s) :
    Run.Fits path { action := a, host } := by
  obtain ⟨rfl, -, hc⟩ := Document.placed_of_mem_actionsAt ha
  obtain ⟨q, hq⟩ := Action.exists_course_nil host a.proposed
  refine ⟨⟨p, s, ha⟩, hp, ?_, by simp⟩
  rw [Run.pause, Action.pause_eq host hc, hq.pauseOf_eq]
  exact hq

/-- What a run asks for was computed from its document, which is a state of the file. -/
theorem Run.Fits.of_asks (h : r.Fits path) (ha : r.pause = .asks d edits) :
    d.path = some path ∧ ComputedFrom d edits := by
  obtain ⟨p, s, hoffered⟩ := h.offered
  have hcourse := h.course
  have hanswers := h.answers
  rw [ha] at hcourse
  generalize r.batches = batches at hcourse hanswers
  cases hcourse with
  | ready he => exact ⟨h.path_eq, .plan hoffered⟩
  | laying he hn hl =>
    refine ⟨hanswers _ List.mem_cons_self _ rfl, ?_⟩
    unfold Action.layout at hl
    split at hl
    · exact .layout hl
    · exact absurd (Except.ok.inj hl).symm hn

theorem Run.Fits.append (h : r.Fits path) (ha : r.pause = .asks d edits) {answer : Answer}
    (hp : ∀ d', answer = .ok d' → d'.path = some path) :
    Run.Fits path { r with batches := r.batches ++ [⟨d, edits, answer⟩] } := by
  have hcourse := h.course
  rw [ha] at hcourse
  obtain ⟨q, hq⟩ := hcourse.exists_append answer
  refine ⟨h.offered, h.path_eq, ?_, ?_⟩
  · rw [Run.pause, Action.pause_eq r.host h.command_eq, hq.pauseOf_eq]
    exact hq
  · intro b hb
    rcases List.mem_append.mp hb with hb | hb
    · exact h.answers b hb
    · obtain rfl := List.mem_singleton.mp hb
      exact hp

variable {t t' : FileTree} {cwd : Location}

theorem FileTree.textAt_of_current (h : Workspace.Current cwd t d path) :
    t.textAt (Path.resolve cwd path) = some d.text := by
  obtain ⟨content, hc, hd⟩ := h.exists_content
  obtain ⟨-, hn, -⟩ := FileTree.exists_of_contentAt hc
  rw [textAt, hn]
  exact congrArg some hd

theorem FileTree.textAt_put {l m : Location} (hl : l ≠ []) (n : Node) (hm : m ≠ l) :
    (t.put l n).textAt m = t.textAt m := by
  rw [textAt, node?_put hl, if_neg hm, textAt]

omit [DecidableEq ι] in
/-- A batch is carried out on the text of its document, or the file stays as it is. -/
theorem turns_writeEdits {faults : Faults} {answer : Answer} (i : ι) (hp : d.path = some path)
    (h : Workspace.writeEdits cwd faults d edits t = (answer, t')) :
    Event.Turns (.tried i ⟨d, edits, answer⟩) (t.textAt (Path.resolve cwd path))
        (t'.textAt (Path.resolve cwd path)) ∧
      ∀ d', answer = .ok d' → d'.path = some path := by
  have hw := Workspace.written_writeEdits cwd faults d edits t
  rw [h] at hw
  cases hw with
  | refused => exact ⟨.refused, by simp⟩
  | unencodable ready encoded free =>
    obtain rfl := Option.some.inj (ready.path_eq.symm.trans hp)
    refine ⟨?_, by simp⟩
    rw [FileTree.textAt_put (by simp)]
    · exact .refused
    · intro heq
      have htext := FileTree.textAt_of_current ready.toCurrent
      rw [FileTree.textAt, heq, free] at htext
      simp at htext
  | accepted ready encoded =>
    obtain rfl := Option.some.inj (ready.path_eq.symm.trans hp)
    have hcurrent := ready.toCurrent.put encoded
    refine ⟨?_, ?_⟩
    · rw [FileTree.textAt_of_current ready.toCurrent, FileTree.textAt_of_current hcurrent]
      exact .accepted ready.applyEdits_eq
    · rintro d' hd
      rw [← Except.ok.inj hd]
      exact ready.path_eq

/-! ## Interleavings -/

/-- A run has tried what it was answered, and nothing before it has loaded its document. -/
def KeepsTo (path : Text) (tried : List Batch) : Option Run → Prop
  | none => tried = []
  | some r => tried = r.batches ∧ r.Fits path

/-- What holds of every state that is reached. -/
structure Kept (sites : ι → Site target) (t : FileTree) (events : List (Event ι))
    (w : Shared ι) : Prop where
  replays : Replays events (t.textAt target) (w.tree.textAt target)
  computed : ∀ i b, .tried i b ∈ events → ComputedFrom b.document b.edits
  runs : ∀ i, KeepsTo (sites i).path (tries i events) (w.runs i)

variable {sites : ι → Site target} {events : List (Event ι)} {w w' : Shared ι} {e : Event ι}

theorem tries_append_loaded (i j : ι) (events : List (Event ι)) (d : Document) :
    tries i (events ++ [.loaded j d]) = tries i events := by
  rw [tries, List.flatMap_append]
  exact List.append_nil _

theorem tries_append_tried (i j : ι) (events : List (Event ι)) (b : Batch) :
    tries i (events ++ [.tried j b]) = tries i events ++ if j = i then [b] else [] := by
  rw [tries, List.flatMap_append, List.flatMap_singleton]
  rfl

theorem tries_append_wrote (i : ι) (events : List (Event ι)) (text : Option Text) :
    tries i (events ++ [.wrote text]) = tries i events := by
  rw [tries, List.flatMap_append]
  exact List.append_nil _

theorem Kept.step (h : Kept sites t events w) (hs : Step sites w e w') :
    Kept sites t (events ++ [e]) w' := by
  cases hs with
  | @load i host faults d p s a new load_eq offered =>
    have hcurrent := Workspace.current_of_loadDocument load_eq
    have htext := FileTree.textAt_of_current hcurrent
    simp only [(sites i).resolve_eq] at htext
    refine ⟨h.replays.append ?_, ?_, ?_⟩
    · rw [htext]
      exact .loaded
    · intro j b hb
      exact h.computed j b (by simpa using hb)
    · simp only [tries_append_loaded]
      refine (Function.forall_update_iff w.runs fun j =>
        KeepsTo (sites j).path (tries j events)).mpr ⟨⟨?_, ?_⟩, fun j _ => h.runs j⟩
      · have hnone := h.runs i
        rw [new] at hnone
        exact hnone
      · exact Run.fits_of_offered host hcurrent.path_eq offered
  | @batch i r d edits faults answer t' running asks write_eq =>
    have hrun := h.runs i
    rw [running] at hrun
    obtain ⟨htries, hfits⟩ := hrun
    obtain ⟨hp, hcomputed⟩ := hfits.of_asks asks
    obtain ⟨hturns, hpath⟩ := turns_writeEdits i hp write_eq
    rw [(sites i).resolve_eq] at hturns
    refine ⟨h.replays.append hturns, ?_, ?_⟩
    · intro j b hb
      rcases List.mem_append.mp hb with hb | hb
      · exact h.computed j b hb
      · obtain ⟨rfl, rfl⟩ := Event.tried.inj (List.mem_singleton.mp hb)
        exact hcomputed
    · simp only [tries_append_tried]
      refine (Function.forall_update_iff w.runs fun j => KeepsTo (sites j).path
        (tries j events ++ if i = j then [_] else [])).mpr ⟨⟨?_, hfits.append asks hpath⟩, ?_⟩
      · rw [if_pos rfl, htries]
      · intro j hj
        rw [if_neg (Ne.symm hj), List.append_nil]
        exact h.runs j
  | write t' =>
    refine ⟨h.replays.append .wrote, ?_, ?_⟩
    · intro j b hb
      exact h.computed j b (by simpa using hb)
    · simpa only [tries_append_wrote] using h.runs

theorem Reaches.kept (h : Reaches sites t events w) : Kept sites t events w := by
  induction h with
  | start => exact ⟨.nil, by simp, fun _ => rfl⟩
  | step before next ih => exact ih.step next

theorem Kept.serial (h : Kept sites t events w) : Serial t events w target := by
  have hcourse : ∀ i r, w.runs i = some r →
      tries i events = r.batches ∧ Action.Course r.host r.action.proposed r.batches r.pause := by
    intro i r hr
    have hrun := h.runs i
    rw [hr] at hrun
    exact ⟨hrun.1, hrun.2.course⟩
  refine ⟨h.replays, h.computed, ?_, ?_⟩
  · intro i r applied hr hp
    obtain ⟨htries, hc⟩ := hcourse i r hr
    rw [hp] at hc
    rw [htries]
    exact hc.accepted rfl
  · intro i r command why hr hp
    obtain ⟨htries, hc⟩ := hcourse i r hr
    rw [hp] at hc
    rw [htries]
    exact hc.rejected

/-- However runs and writes of others are interleaved, no batch is written over a text that it was
not computed from. -/
theorem interleaving_is_serial (sites : ι → Site target) (t : FileTree) (events : List (Event ι))
    (w : Shared ι) (h : Reaches sites t events w) : Serial t events w target :=
  h.kept.serial

theorem Run.pause_eq_asks {p : Position} {s : Settings} {a : Action} (host : Host)
    (ha : a ∈ d.actionsAt p s) (he : a.proposed.edits ≠ []) :
    Run.pause { action := a, host } = .asks d a.proposed.edits := by
  obtain ⟨rfl, -, hc⟩ := Document.placed_of_mem_actionsAt ha
  rw [Run.pause, Action.pause_eq host hc]
  exact (Action.Course.ready he).pauseOf_eq

/-- Two runs load the same text. The first one is accepted, then someone else replaces the file,
and the second one is rejected. -/
theorem interleaving_is_serial_for_two_runs :
    ∃ (sites : Bool → Site ["A.cs"]) (t : FileTree) (events : List (Event Bool)) (w : Shared Bool),
      Reaches sites t events w ∧ Serial t events w ["A.cs"] ∧
      (∃ r applied, w.runs false = some r ∧ r.pause = .ended (.ok applied)) ∧
      ∃ r command why, w.runs true = some r ∧ r.pause = .ended (.error (.rejected command why)) := by
  let t : FileTree :=
    ⟨[(["A.cs"], .file ((encode? "class A\n\x7b\npublic A(int x) \x7b\x7d\x7d").getD []))]⟩
  let t' : FileTree := ⟨[(["A.cs"], .file ((encode? "class B").getD []))]⟩
  let sites : Bool → Site ["A.cs"] := fun
    | false => ⟨[], "A.cs", by decide⟩
    | true => ⟨[], "/A.cs", by decide⟩
  obtain ⟨d₁, hd₁, d₂, hd₂, a, ha, b, hb, hae, hau, hbe, hbw⟩ :
      ∃ d₁ ∈ (Workspace.loadDocument { tree := t } "A.cs").toOption,
      ∃ d₂ ∈ (Workspace.loadDocument { tree := t } "/A.cs").toOption,
      ∃ a ∈ d₁.actionsAt ⟨2, 13⟩ {}, ∃ b ∈ d₂.actionsAt ⟨2, 13⟩ {},
        a.proposed.edits ≠ [] ∧ (∀ e ∈ a.proposed.edits, Text.Utf8.Encodable e.newText) ∧
        b.proposed.edits ≠ [] ∧ (Workspace.writeEdits [] {} d₂ b.proposed.edits t').1 =
          .error (.rejected (.changed "/A.cs")) := by
    decide +kernel
  replace hd₁ := Action.eq_ok_of_mem_toOption hd₁
  replace hd₂ := Action.eq_ok_of_mem_toOption hd₂
  obtain ⟨rfl, hplaced, hac⟩ := Document.placed_of_mem_actionsAt ha
  have hbc := (Document.placed_of_mem_actionsAt hb).2.2
  have hcurrent : Workspace.Current [] t a.document "A.cs" :=
    Workspace.current_of_loadDocument hd₁
  obtain ⟨text, ht, -⟩ := hplaced.exists_applyEdits
  have hready : Workspace.Ready [] t a.document a.proposed.edits "A.cs" text := ⟨hcurrent, ht⟩
  obtain ⟨content, hcontent⟩ := (hready.encodable hau).exists_bytes
  have hplain : Action.layout { formats := false } (a.document.withText text) = .ok [] := rfl
  have hreach : Reaches sites t _ _ :=
    ((((Reaches.start.step (.load false { formats := false } rfl hd₁ ha)).step
      (.load true {} rfl hd₂ hb)).step
      (.batch false rfl (Run.pause_eq_asks _ ha hae)
        (Workspace.writeEdits_eq hready (by decide) hcontent))).step (.write t')).step
      (.batch true rfl (Run.pause_eq_asks _ hb hbe) (Prod.ext hbw rfl))
  refine ⟨sites, t, _, _, hreach, interleaving_is_serial _ _ _ _ hreach,
    ⟨_, { a.proposed with document := a.document.withText text }, rfl, ?_⟩,
    _, b.command, .changed "/A.cs", rfl, ?_⟩
  · rw [Run.pause, Action.pause_eq _ hac]
    exact (Action.Course.plain hae hplain).pauseOf_eq
  · rw [Run.pause, Action.pause_eq _ hbc]
    exact (Action.Course.failed hbe).pauseOf_eq

end CSharpActions
