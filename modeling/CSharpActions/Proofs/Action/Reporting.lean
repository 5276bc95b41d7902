import CSharpActions.Proofs.Action.DryRun
import CSharpActions.Proofs.Action.Search

/-!
# Reported failures

A batch whose file cannot be opened, written or put in place is rejected, and a rejection is
reported by every layer: the host is told once, the command ends with the exit code for it, and the
tool answers with an error object. The creation of the temporary file is the one operation that is
not watched; its failure goes through all layers as it is.
-/
namespace CSharpActions

open Text.Utf8 (Encodable encode?)

/-- The file operations that a batch consists of, in their order. -/
inductive Operation where
  | opening
  | creating
  | writing
  | replacing
deriving DecidableEq, Repr

/-- One operation fails, and no other one. -/
def Operation.fails (cause : FileError) : Operation → Faults
  | .opening => { openSource := fun _ => some cause }
  | .creating => { createTemp := some cause }
  | .writing => { writeTemp := some cause }
  | .replacing => { replace := some cause }

variable {cwd : Location} {t : FileTree} {d : Document} {edits : List Edit} {path : Text}
  {op : Operation} {cause : FileError}

/-! ## The sink -/

namespace FileTree

theorem walk_error {l : Location} {parts : List Text} {kind : FileError.Kind}
    (h : t.walk l parts = .error kind) : kind.isRefusal = false := by
  induction parts generalizing l with
  | nil =>
    rw [walk] at h
    split at h
    · simp at h
    · exact Except.error.inj h ▸ rfl
  | cons part rest ih =>
    rw [walk] at h
    split at h
    · exact Except.error.inj h ▸ rfl
    · exact Except.error.inj h ▸ rfl
    · split at h
      · exact Except.error.inj h ▸ rfl
      · exact ih h

theorem stat_error {kind : FileError.Kind} (hn : refusal? path = none)
    (h : t.stat cwd path = .error kind) : kind.isRefusal = false := by
  unfold stat at h
  cases ho : objection? path with
  | some k =>
    rw [ho] at h
    obtain rfl := Except.error.inj h
    exact isRefusal_of_objection? hn ho
  | none =>
    rw [ho] at h
    cases hw : t.walk (startOf cwd path) (Path.parts path) with
    | error k =>
      rw [hw] at h
      obtain rfl := Except.error.inj h
      exact walk_error hw
    | ok l =>
      rw [hw] at h
      dsimp only at h
      split at h
      · simp at h
      · exact Except.error.inj h ▸ rfl

/-- Only a path that is refused fails for that. -/
theorem contentAt_error {e : FileError} (hn : refusal? path = none)
    (h : t.contentAt cwd path = .error e) : e.kind.isRefusal = false := by
  unfold contentAt openFile at h
  cases hs : t.stat cwd path with
  | error kind =>
    rw [hs] at h
    rw [← Except.error.inj h]
    exact stat_error hn hs
  | ok found =>
    obtain ⟨l, n⟩ := found
    rw [hs] at h
    cases n with
    | directory => exact Except.error.inj h ▸ rfl
    | file content => simp [Except.map] at h

end FileTree

namespace Workspace

theorem readSource_error {w : Workspace} {e : FileError} (hw : w.faults = op.fails cause)
    (hc : cause.kind.isRefusal = false) (hn : FileTree.refusal? path = none)
    (h : w.readSource path = .error e) : e.kind.isRefusal = false := by
  unfold readSource at h
  rw [hn] at h
  cases hf : w.faults.openSource path with
  | some x =>
    rw [hf] at h
    rw [← Except.error.inj h]
    have hx : x = cause := by
      rw [hw] at hf
      cases op <;> simp only [Operation.fails, reduceCtorEq, Option.some.injEq] at hf
      exact hf.symm
    rw [hx]
    exact hc
  | none =>
    rw [hf] at h
    cases ht : w.tree.contentAt w.cwd path with
    | error x =>
      rw [ht] at h
      rw [← Except.error.inj h]
      exact FileTree.contentAt_error hn ht
    | ok content => simp [ht, Except.map] at h

/-- A temporary file that cannot be filled or put in place is removed again. -/
theorem replaceFile_fails {target : Path} {text : Text} {content : Text.Utf8.Bytes}
    (hop : op = .writing ∨ op = .replacing) (hr : HoldsTemp target.parent)
    (he : encode? text = some content) :
    replaceFile (op.fails cause) t target text = (.error (.write cause), t) := by
  obtain ⟨n, hn, hfree⟩ := t.exists_freshIn (Location.parent target.names) tempName_injective
  have hne : Location.parent target.names ++ [tempName n] ≠ [] := by simp
  have htemp : tempFault? (op.fails cause) target.parent = none :=
    tempFault?_eq_none hr _ (by rcases hop with rfl | rfl <;> rfl)
  rw [replaceFile, htemp]
  rcases hop with rfl | rfl
  · simp only [Operation.fails, hn, he, FileTree.remove_put hne hfree]
  · simp only [Operation.fails, hn, he, FileTree.put_put, FileTree.remove_put hne hfree]

/-- A batch that meets any failure but that of creating the temporary file is rejected, and the
files stay as they are. -/
theorem exists_rejection_of_fails (cwd : Location) (t : FileTree) (hop : op ≠ .creating)
    (hc : cause.kind.isRefusal = false) (hp : d.path = some path)
    (hn : FileTree.refusal? path = none) (hd : HoldsTemp (Path.absolute cwd path).parent)
    (ho : ∀ e ∈ edits, e.Ordered d)
    (hu : Encodable d.text → ∀ e ∈ edits, Encodable e.newText) :
    ∃ why, writeEdits cwd (op.fails cause) d edits t = (.error (.rejected why), t) := by
  unfold writeEdits
  rw [hp]
  dsimp only
  by_cases hempty : path.isEmpty
  · rw [if_pos hempty]
    exact ⟨_, rfl⟩
  rw [if_neg hempty]
  cases hr : readSource { tree := t, cwd, faults := op.fails cause } path with
  | error e =>
    dsimp only
    rw [readSource_error rfl hc hn hr, if_neg Bool.false_ne_true]
    exact ⟨_, rfl⟩
  | ok current =>
    dsimp only
    by_cases hcur : current = d.text
    · rw [if_neg (by simpa using hcur)]
      have hcurrent : Current cwd t d path := ⟨hp, hcur ▸ contentAt_of_readSource hr⟩
      obtain ⟨text, ha⟩ := Document.exists_applyEdits_eq ho
      have hready : Ready cwd t d edits path text := ⟨hcurrent, ha⟩
      obtain ⟨content, he⟩ := (hready.encodable (hu hcurrent.encodable)).exists_bytes
      have hop' : op = .writing ∨ op = .replacing := by
        cases op with
        | opening =>
          -- the file was opened after all
          unfold readSource at hr
          simp [Operation.fails, hn] at hr
        | creating => exact absurd rfl hop
        | writing => exact Or.inl rfl
        | replacing => exact Or.inr rfl
      rw [Document.edited_eq_ok_iff.mpr ha]
      dsimp only [absolute]
      rw [replaceFile_fails hop' hd he]
      exact ⟨_, rfl⟩
    · rw [if_pos hcur]
      exact ⟨_, rfl⟩

/-- The failure to create the temporary file is no rejection. -/
theorem writeEdits_creating {text : Text} (h : Ready cwd t d edits path text) :
    writeEdits cwd (Operation.creating.fails cause) d edits t = (.error (.system cause), t) := by
  have hr := h.readSource_eq (Operation.creating.fails cause) rfl
  simp only [writeEdits, h.path_eq, h.isEmpty_eq, hr,
    Document.edited_eq_ok_iff.mpr h.applyEdits_eq]
  simp [replaceFile, tempFault?, Operation.fails]

end Workspace

/-! ## Actions and tools -/

/-- The error object of a tool whose edit could not be applied. -/
structure IsApplyFailure (message : Text) (json : Json) : Prop where
  isError : json.field? "isError" = some (.bool true)
  error : json.field? "error" = some (.str message)
  errorCode : json.field? "error_code" = some (.str "APPLY_FAILED")
  exitCode : json.field? "exit_code" = some (.int 7)
  retryable : json.field? "retryable" = some (.bool true)

theorem isApplyFailure_toJson (message : Text) :
    IsApplyFailure message (Report.Failure.applyFailed message).toJson :=
  ⟨rfl, rfl, rfl, rfl, rfl⟩

namespace Action

variable {σ : Type} {host : Host} {sink : Sink σ} {s : σ} {a : Action}

/-- The rejection of a batch as the layers above report it. -/
structure Foreseen (timestamp : Text) (a : Action) (outcome : Outcome σ) (message : Text) :
    Prop where
  result : ∃ why, outcome.result = .error (.rejected a.command why) ∧
    message = (ApplyError.rejected a.command why).message ∧
    (CommandError.ofApply (.rejected a.command why)).exitCode = 7
  messages : outcome.messages = [⟨.error, message⟩]
  answer : ∃ json, Tool.outcomeAnswer timestamp false a outcome = .ok json ∧
    IsApplyFailure message json

theorem messages_execute (host : Host) (hc : a.command = a.plan.command)
    (he : a.proposed.edits ≠ []) (sink : Sink σ) (s : σ) :
    (a.execute host sink s).messages = (commit host sink a.proposed s).messages := by
  obtain ⟨title, command, plan, d⟩ := a
  obtain rfl : command = plan.command := hc
  cases plan with
  | constructor plan => rfl
  | member plan =>
    have hne : (memberEdits d.text plan).isEmpty = false := by
      simpa [proposed, Plan.edits] using he
    change (if (memberEdits d.text plan).isEmpty && _ then _ else []) ++ _ = _
    rw [hne, Bool.false_and, if_neg Bool.false_ne_true]
    rfl

/-- One rejected batch is enough. -/
theorem exists_foreseen_of_mem_attempts (timestamp : Text) (hc : a.command = a.plan.command)
    {x : Attempt σ} (hx : x ∈ attempts host sink a.proposed s) {why : Rejection}
    (hr : x.answer = .error (.rejected why)) :
    ∃ message, Foreseen timestamp a (a.execute host sink s) message := by
  have hh := history_commit host sink a.proposed s
  obtain ⟨hresult, hmessages, hcode⟩ := hh.reported.rejected x hx why hr
  have he : a.proposed.edits ≠ [] := by
    intro hn
    have hnone : attempts host sink a.proposed s = [] := by simp [attempts, commit, hn]
    simp [hnone] at hx
  have hexecute : (a.execute host sink s).result = .error (.rejected a.command why) :=
    (execute_eq host hc sink s).1.trans hresult
  refine ⟨_, ⟨why, hexecute, rfl, hcode⟩, ?_, ?_⟩
  · rw [messages_execute host hc he]
    exact hmessages
  · rw [Tool.outcomeAnswer, hexecute]
    exact ⟨_, rfl, isApplyFailure_toJson _⟩

/-- A batch for a file whose ranges are in order and whose text can be encoded. -/
structure Regular (path : Text) (d : Document) (edits : List Edit) : Prop where
  path_eq : d.path = some path
  ordered : ∀ e ∈ edits, e.Ordered d
  encodable : Encodable d.text → ∀ e ∈ edits, Encodable e.newText

theorem regular_proposed {p : Position} {settings : Settings} (hp : d.path = some path)
    (hf : Encodable settings.privatePrefix) (ha : a ∈ d.actionsAt p settings) :
    Regular path a.proposed.document a.proposed.edits := by
  obtain ⟨rfl, hplaced, -⟩ := Document.placed_of_mem_actionsAt ha
  refine ⟨hp, ?_, fun hd => Document.encodable_of_mem_actionsAt hd hf ha⟩
  intro e he
  rw [proposed, hplaced.edits_eq] at he
  obtain ⟨f, -, rfl⟩ := List.mem_map.mp he
  exact Edit.insert_ordered _ _ _

theorem regular_format {k : Int} (hp : d.path = some path) (hf : Layout.format d k = .ok edits) :
    Regular path d edits :=
  ⟨hp, fun _ he => Layout.ordered_of_mem_format hf he,
    fun _ _ he => Layout.encodable_of_mem_format hf he⟩

/-- An accepted batch leaves a document of the same file. -/
theorem path_of_apply {d' : Document} {w w' : Disturbed}
    (h : (Disturbed.sink cwd).apply d edits w = (.ok d', w')) : d'.path = d.path := by
  have hanswer : (Workspace.writeEdits cwd w.turn.faults d edits w.found).1 = .ok d' :=
    congrArg Prod.fst h
  have hw := Workspace.written_writeEdits cwd w.turn.faults d edits w.found
  generalize Workspace.writeEdits cwd w.turn.faults d edits w.found = out at hanswer hw
  cases hw with
  | refused => simp at hanswer
  | unencodable => simp at hanswer
  | accepted =>
    rw [← Except.ok.inj hanswer]
    rfl

theorem regular_of_mem_attempts {p : Position} {settings : Settings} {w : Disturbed}
    (hp : d.path = some path) (hf : Encodable settings.privatePrefix)
    (ha : a ∈ d.actionsAt p settings) {x : Attempt Disturbed}
    (hx : x ∈ attempts host (Disturbed.sink cwd) a.proposed w) :
    Regular path x.document x.edits ∧
      (Disturbed.sink cwd).apply x.document x.edits x.before = (x.answer, x.after) := by
  have hregular := regular_proposed hp hf ha
  refine (history_commit host (Disturbed.sink cwd) a.proposed w).forall_batches hregular ?_ x hx
  intro d₁ s₁ edits h₁ hformat
  exact regular_format ((path_of_apply h₁).trans hregular.path_eq) hformat

/-- What becomes of a failure during a batch: the batch is rejected, the host is told, and the tool
answers. Paths that are refused before any operation are left out, and so are directories whose
temporary files have too long paths, in which another operation fails. -/
structure Reports (faults : Faults) : Prop where
  exists_rejection : ∀ (cwd : Location) (t : FileTree) (path : Text) (d : Document)
    (edits : List Edit), FileTree.refusal? path = none →
    Workspace.HoldsTemp (Path.absolute cwd path).parent → d.path = some path →
    (∀ e ∈ edits, e.Ordered d ∧ Encodable e.newText) →
    ∃ why, Workspace.writeEdits cwd faults d edits t = (.error (.rejected why), t)
  exists_foreseen : ∀ (cwd : Location) (host : Host) (path : Text) (d : Document) (p : Position)
    (settings : Settings) (a : Action) (timestamp : Text) (w : Disturbed),
    FileTree.refusal? path = none → Workspace.HoldsTemp (Path.absolute cwd path).parent →
    d.path = some path → Encodable settings.privatePrefix →
    a ∈ d.actionsAt p settings → ∀ x ∈ attempts host (Disturbed.sink cwd) a.proposed w,
    x.before.turn.faults = faults →
    ∃ message, Foreseen timestamp a (a.execute host (Disturbed.sink cwd) w) message
  exists_answer : ∀ (w : Workspace) (path : Text) (p : Position) (i : Nat)
    (opened : Workspace.Opened) (a : Action) (timestamp : Text), w.faults = faults →
    Workspace.HoldsTemp (w.absolute path).parent →
    Tool.openAt w path p = .ok opened → Encodable opened.settings.privatePrefix →
    opened.actions[i]? = some a → a.proposed.edits ≠ [] →
    ∃ message json, Tool.applyAction w timestamp path p i false = (.ok json, w.tree) ∧
      IsApplyFailure message json

/-- The search for the actions ends with those at the position. -/
theorem openAt_eq (w : Workspace) (path : Text) (p : Position) :
    Tool.openAt w path p =
      match w.loadDocument path with
      | .error f => .error (.failed f)
      | .ok d =>
        match w.settingsFor path [] with
        | .error e => .error (.config e)
        | .ok settings => .ok ⟨d, settings, d.actionsAt (d.clamp p) settings⟩ := by
  cases hd : w.loadDocument path with
  | error f => simp [Tool.openAt, hd]
  | ok d =>
    cases hs : w.settingsFor path [] with
    | error e => simp [Tool.openAt, hd, hs]
    | ok settings => simp [Tool.openAt, hd, hs, Document.offer_eq]

/-- What a search that ends has opened. -/
theorem loaded_of_openAt {w : Workspace} {p : Position} {opened : Workspace.Opened}
    (h : Tool.openAt w path p = .ok opened) :
    w.loadDocument path = .ok opened.document ∧ w.settingsFor path [] = .ok opened.settings ∧
      opened.actions = opened.document.actionsAt (opened.document.clamp p) opened.settings := by
  rw [openAt_eq] at h
  cases hd : w.loadDocument path with
  | error f => simp [hd] at h
  | ok document =>
    rw [hd] at h
    cases hs : w.settingsFor path [] with
    | error e => simp [hs] at h
    | ok settings =>
      rw [hs] at h
      obtain rfl := Except.ok.inj h
      exact ⟨rfl, rfl, rfl⟩

theorem current_of_openAt {w : Workspace} {p : Position} {i : Nat} {opened : Workspace.Opened}
    (h : Tool.openAt w path p = .ok opened) (hi : opened.actions[i]? = some a) :
    Workspace.Current w.cwd w.tree opened.document path ∧
      a ∈ opened.document.actionsAt (opened.document.clamp p) opened.settings := by
  obtain ⟨hd, -, hactions⟩ := loaded_of_openAt h
  exact ⟨Workspace.current_of_loadDocument hd, hactions ▸ List.mem_of_getElem? hi⟩

theorem eq_ok_of_mem_toOption {ε α : Type} {r : Except ε α} {x : α} (h : x ∈ r.toOption) :
    r = .ok x := by
  cases r with
  | error e => simp [Except.toOption] at h
  | ok y => rw [Option.some.inj h]

theorem applyAction_eq {w : Workspace} {p : Position} {i : Nat} {opened : Workspace.Opened}
    (timestamp : Text) (h : Tool.openAt w path p = .ok opened) (ha : opened.actions[i]? = some a) :
    Tool.applyAction w timestamp path p i false =
      (Tool.outcomeAnswer timestamp false a
        (a.execute { settings := opened.settings } (Workspace.fileSink w.cwd w.faults) w.tree),
      (a.execute { settings := opened.settings } (Workspace.fileSink w.cwd w.faults) w.tree).sink)
    := by
  have hi : ¬ (i : Int) < 0 := by omega
  simp [Tool.applyAction, h, hi, ha]

theorem reports_of_ne_creating (hop : op ≠ .creating) (hc : cause.kind.isRefusal = false) :
    Reports (op.fails cause) := by
  refine ⟨?_, ?_, ?_⟩
  · intro cwd t path d edits hn hr hp he
    exact Workspace.exists_rejection_of_fails cwd t hop hc hp hn hr (fun e hm => (he e hm).1)
      fun _ e hm => (he e hm).2
  · intro cwd host path d p settings a timestamp w hn hr hp hf ha x hx hfaults
    obtain ⟨hregular, happly⟩ := regular_of_mem_attempts hp hf ha hx
    obtain ⟨-, -, hcommand⟩ := Document.placed_of_mem_actionsAt ha
    obtain ⟨why, hwhy⟩ := Workspace.exists_rejection_of_fails cwd x.before.found
      hop hc hregular.path_eq hn hr hregular.ordered hregular.encodable
    have hanswer : x.answer = .error (.rejected why) := by
      rw [Disturbed.sink_apply, hfaults, hwhy] at happly
      exact (congrArg Prod.fst happly).symm
    exact exists_foreseen_of_mem_attempts timestamp hcommand hx hanswer
  · intro w path p i opened a timestamp hfaults hr hopened hf hi hne
    obtain ⟨hcurrent, ha⟩ := current_of_openAt hopened hi
    have hregular := regular_proposed hcurrent.path_eq hf ha
    obtain ⟨-, -, hcommand⟩ := Document.placed_of_mem_actionsAt ha
    obtain ⟨why, hwhy⟩ := Workspace.exists_rejection_of_fails w.cwd w.tree
      hop hc hregular.path_eq hcurrent.refusal?_eq_none hr hregular.ordered hregular.encodable
    rw [← hfaults] at hwhy
    have htried : attempts { settings := opened.settings } (Workspace.fileSink w.cwd w.faults)
        a.proposed w.tree = [_] := attempts_eq_of_error hne hwhy
    obtain ⟨message, hforeseen⟩ := exists_foreseen_of_mem_attempts timestamp hcommand
      (htried ▸ List.mem_singleton_self _) rfl
    obtain ⟨json, hjson, hfailure⟩ := hforeseen.answer
    refine ⟨message, json, ?_, hfailure⟩
    rw [applyAction_eq timestamp hopened hi, hjson, (execute_eq _ hcommand _ _).2,
      commit_eq_of_error hne hwhy, sink_fail]

/-- The failure to create the temporary file stops the tool, and the host is told nothing. -/
theorem applyAction_creating {w : Workspace} {p : Position} {i : Nat}
    {opened : Workspace.Opened} (timestamp : Text) (hw : w.faults = Operation.creating.fails cause)
    (hopened : Tool.openAt w path p = .ok opened) (hi : opened.actions[i]? = some a)
    (hne : a.proposed.edits ≠ []) :
    Tool.applyAction w timestamp path p i false = (.error (.stopped (.system cause)), w.tree) := by
  obtain ⟨hcurrent, ha⟩ := current_of_openAt hopened hi
  obtain ⟨hd, hplaced, hcommand⟩ := Document.placed_of_mem_actionsAt ha
  rw [hd] at hcurrent hplaced
  obtain ⟨text, ht, -⟩ := hplaced.exists_applyEdits
  have hwrite : (Workspace.fileSink w.cwd w.faults).apply a.proposed.document a.proposed.edits
      w.tree = (.error (.system cause), w.tree) := by
    rw [hw]
    exact Workspace.writeEdits_creating ⟨hcurrent, ht⟩
  obtain ⟨hresult, hsink⟩ := execute_eq { settings := opened.settings } hcommand
    (Workspace.fileSink w.cwd w.faults) w.tree
  rw [commit_eq_of_error hne hwrite] at hresult hsink
  rw [applyAction_eq timestamp hopened hi, Tool.outcomeAnswer, hresult, hsink]
  rfl

/-- So does a text that cannot be written to the temporary file. -/
theorem applyAction_unencodable {w : Workspace} {p : Position} {i : Nat}
    {opened : Workspace.Opened} (timestamp : Text) (hw : w.faults = {})
    (hr : Workspace.HoldsTemp (w.absolute path).parent)
    (hopened : Tool.openAt w path p = .ok opened) (hi : opened.actions[i]? = some a) {e : Edit}
    (hm : e ∈ a.proposed.edits) (hu : ¬ Encodable e.newText) :
    (Tool.applyAction w timestamp path p i false).1 = .error (.stopped .unencodable) := by
  obtain ⟨hcurrent, ha⟩ := current_of_openAt hopened hi
  obtain ⟨hd, hplaced, hcommand⟩ := Document.placed_of_mem_actionsAt ha
  rw [hd] at hcurrent hplaced
  have hresult := execute_of_unencodable { settings := opened.settings } hcommand hplaced hcurrent
    hr hm hu
  rw [applyAction_eq timestamp hopened hi, Tool.outcomeAnswer, hw, hresult]
  rfl

/-- A failed operation is reported exactly if it is not the creation of the temporary file. -/
theorem failed_operation_isReported_iff (op : Operation) (cause : FileError)
    (hc : cause.kind.isRefusal = false) : Reports (op.fails cause) ↔ op ≠ .creating := by
  refine ⟨?_, fun hop => reports_of_ne_creating hop hc⟩
  rintro h rfl
  have hcurrent : Workspace.Current [] ⟨[(["A"], .file [])]⟩ ⟨[], some "A"⟩ "A" :=
    ⟨rfl, by decide +kernel⟩
  obtain ⟨why, hwhy⟩ := h.exists_rejection [] ⟨[(["A"], .file [])]⟩ "A" ⟨[], some "A"⟩ []
    (by decide) (by decide) rfl (by simp)
  rw [Workspace.writeEdits_creating ⟨hcurrent, Document.applyEdits_nil _⟩] at hwhy
  simp at hwhy

/-- With a full disk the temporary file cannot be put in place. -/
theorem failed_operation_isReported_on_full_disk :
    ∃ (cause : FileError) (w : Workspace), cause = ⟨.noSpace, none⟩ ∧
      w = { tree := ⟨[(["A.cs"],
              .file ((encode? "class A\n\x7b\npublic A(int x) \x7b\x7d\x7d").getD []))]⟩,
            faults := Operation.replacing.fails cause } ∧
      cause.kind.isRefusal = false ∧ (Reports (Operation.replacing.fails cause) ↔
        Operation.replacing ≠ .creating) ∧
      ∀ timestamp, ∃ message json,
        Tool.applyAction w timestamp "A.cs" ⟨2, 13⟩ 0 false = (.ok json, w.tree) ∧
          IsApplyFailure message json := by
  refine ⟨_, _, rfl, rfl, by decide, failed_operation_isReported_iff _ _ (by decide), ?_⟩
  intro timestamp
  obtain ⟨opened, hopened, hf, a, hi, hne⟩ : ∃ opened ∈ (Tool.openAt
      { tree := ⟨[(["A.cs"],
          .file ((encode? "class A\n\x7b\npublic A(int x) \x7b\x7d\x7d").getD []))]⟩,
        faults := Operation.replacing.fails ⟨.noSpace, none⟩ } "A.cs" ⟨2, 13⟩).toOption,
      Encodable opened.settings.privatePrefix ∧
        ∃ a ∈ opened.actions[0]?, a.proposed.edits ≠ [] := by
    decide +kernel
  have hreports := (failed_operation_isReported_iff .replacing ⟨.noSpace, none⟩ (by decide)).mpr
    (by decide)
  exact hreports.exists_answer _ "A.cs" ⟨2, 13⟩ 0 opened a timestamp rfl (by decide)
    (eq_ok_of_mem_toOption hopened) hf hi hne

/-- The tool is stopped in a directory that cannot be written to, and by a prefix with half of a
surrogate pair, which cannot be written to the temporary file. -/
theorem failed_write_stops_tool :
    ∃ w v : Workspace,
      w = { tree := ⟨[(["A.cs"],
              .file ((encode? "class A\n\x7b\npublic A(int x) \x7b\x7d\x7d").getD []))]⟩,
            faults := Operation.creating.fails ⟨.denied, none⟩ } ∧
      v = { tree := ⟨[(["A.cs"],
              .file ((encode? "class A\n\x7b\npublic A(int x) \x7b\x7d\x7d").getD [])),
            ([".sharpkit"], .directory), ([".sharpkit", "config.json"],
              .file ((encode? "\x7b\"private_member_prefix\": \"\\ud800\"\x7d").getD []))]⟩ } ∧
      ∀ timestamp,
        Tool.applyAction w timestamp "A.cs" ⟨2, 13⟩ 0 false =
          (.error (.stopped (.system ⟨.denied, none⟩)), w.tree) ∧
        (Tool.applyAction v timestamp "A.cs" ⟨2, 13⟩ 0 false).1 =
          .error (.stopped .unencodable) := by
  refine ⟨_, _, rfl, rfl, fun timestamp => ⟨?_, ?_⟩⟩
  · obtain ⟨opened, hopened, a, hi, hne⟩ : ∃ opened ∈ (Tool.openAt
        { tree := ⟨[(["A.cs"],
            .file ((encode? "class A\n\x7b\npublic A(int x) \x7b\x7d\x7d").getD []))]⟩,
          faults := Operation.creating.fails ⟨.denied, none⟩ } "A.cs" ⟨2, 13⟩).toOption,
        ∃ a ∈ opened.actions[0]?, a.proposed.edits ≠ [] := by
      decide +kernel
    exact applyAction_creating timestamp rfl (eq_ok_of_mem_toOption hopened) hi hne
  · obtain ⟨opened, hopened, a, hi, e, hm, hu⟩ : ∃ opened ∈ (Tool.openAt
        { tree := ⟨[(["A.cs"],
            .file ((encode? "class A\n\x7b\npublic A(int x) \x7b\x7d\x7d").getD [])),
          ([".sharpkit"], .directory), ([".sharpkit", "config.json"],
            .file ((encode? "\x7b\"private_member_prefix\": \"\\ud800\"\x7d").getD []))]⟩ }
          "A.cs" ⟨2, 13⟩).toOption,
        ∃ a ∈ opened.actions[0]?, ∃ e ∈ a.proposed.edits, ¬ Encodable e.newText := by
      decide +kernel
    exact applyAction_unencodable timestamp rfl (by decide) (eq_ok_of_mem_toOption hopened) hi hm hu

end Action

end CSharpActions
