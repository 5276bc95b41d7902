import CSharpActions.Proofs.Action.Reporting
import CSharpActions.Proofs.CommandLine.Reading
import CSharpActions.Proofs.Diff.Lines
import CSharpActions.Proofs.Json.Document
import CSharpActions.Tool

/-!
# The command and the tool

An action is applied by a command, with numbers counted from one, or by a tool, with numbers counted
from zero. Both leave the same files; they do the same to the document, fail with the same exit
code, or are stopped by the same error.
-/
namespace CSharpActions

open CommandLine Text.Utf8

/-! ## The same action -/

namespace CommandLine

variable {w : Workspace} {path : Text} {line character index : Int}

/-- The workspace as a call sees it that has other room for nested values. -/
def withNesting (w : Workspace) (nesting : Nat) : Workspace :=
  { w with platform := { w.platform with jsonNesting := nesting } }

theorem openTarget_eq (w : Workspace) (path : Text) (hl : 0 ≤ line) (hc : 0 ≤ character) :
    openTarget w ⟨path, line + 1, character + 1, none⟩ true =
      Tool.openAt w path ⟨line, character⟩ := by
  unfold openTarget Tool.openAt
  cases w.loadDocument path with
  | error f => rfl
  | ok document =>
    have hposition : document.positionAt (line + 1) (character + 1) =
        .ok (document.clamp ⟨line, character⟩) := by
      have hlow : (line + 1 < 1 || character + 1 < 1) = false := by
        rw [Bool.or_eq_false_iff, decide_eq_false_iff_not, decide_eq_false_iff_not]
        omega
      rw [Document.positionAt, hlow, if_neg Bool.false_ne_true, Int.add_sub_cancel,
        Int.add_sub_cancel]
    dsimp only
    rw [hposition]
    rfl

/-- Of all that a tool looks at, only the settings depend on how values may be nested. -/
theorem applyAction_withNesting {nesting : Nat} (timestamp : Text) (p : Position) (index : Int)
    (dryRun : Bool)
    (h : (withNesting w nesting).settingsFor path [] = w.settingsFor path []) :
    Tool.applyAction (withNesting w nesting) timestamp path p index dryRun =
      Tool.applyAction w timestamp path p index dryRun := by
  have hopen : Tool.openAt (withNesting w nesting) path p = Tool.openAt w path p := by
    unfold Tool.openAt
    rw [h]
    rfl
  unfold Tool.applyAction
  rw [hopen]
  rfl

theorem toCommandError_index {n : Int} (h : Text.Readable n) (available : Nat) :
    ∃ message, (Action.NoAction.index n available).toCommandError =
      .failed (.noAction message) := by
  rw [Action.NoAction.toCommandError, Action.NoAction.message, Text.writeInt_eq_ok h]
  exact ⟨_, rfl⟩

theorem toCommandError_index_error {n : Int} (h : ¬ Text.Readable n) (available : Nat) :
    (Action.NoAction.index n available).toCommandError = .number .unwritable := by
  rw [Action.NoAction.toCommandError, Action.NoAction.message, Text.writeInt_eq_error h]
  rfl

theorem select_succ (actions : List Action) (index : Int) :
    Action.select actions (.index (index + 1)) =
      match if index < 0 then none else actions[index.toNat]? with
      | some a => .ok a
      | none => .error (.index (index + 1) actions.length) := by
  unfold Action.select
  by_cases hi : index < 0
  · have hlt : index + 1 < 1 := by omega
    simp only [hi, hlt, if_true]
  · have hlt : ¬ index + 1 < 1 := by omega
    cases hfound : actions[index.toNat]? <;>
      simp only [hi, hlt, if_false, Int.add_sub_cancel, hfound]

end CommandLine

/-! ## What can be printed -/

/-- A sink that accepts nothing but the result of the edits. -/
def Sink.Applies {σ : Type} (sink : Sink σ) : Prop :=
  ∀ d edits s d' s', sink.apply d edits s = (.ok d', s') → d.applyEdits edits = .ok d'.text

theorem applies_memorySink : (memorySink none).Applies := by
  intro d edits s d' s' h
  unfold memorySink memorySink.accept at h
  dsimp only at h
  cases hd : d.edited edits with
  | error e => simp [hd] at h
  | ok t =>
    simp only [hd, Prod.mk.injEq, Except.ok.injEq] at h
    rw [← h.1]
    exact Document.edited_eq_ok_iff.mp hd

theorem applies_fileSink (cwd : Location) (faults : Faults) :
    (Workspace.fileSink cwd faults).Applies := by
  intro d edits t d' t' h
  have hw := Workspace.written_writeEdits cwd faults d edits t
  change Workspace.writeEdits cwd faults d edits t = _ at h
  rw [h] at hw
  cases hw with
  | accepted ready encoded => exact ready.applyEdits_eq

namespace Action

variable {σ : Type} {host : Host} {sink : Sink σ} {s : σ}

theorem encodable_of_applyEdits {d : Document} {edits : List Edit} {t : Text}
    (hd : Encodable d.text) (he : ∀ e ∈ edits, Encodable e.newText)
    (h : d.applyEdits edits = .ok t) : Encodable t := by
  intro c hc
  rcases Document.mem_applyEdits h hc with hc | ⟨e, hm, hc⟩
  · exact hd c hc
  · exact he e hm c hc

/-- Edits that can be encoded leave a document that can be encoded. -/
theorem encodable_of_commit {a r : Applied} (hs : sink.Applies) (hd : Encodable a.document.text)
    (he : ∀ e ∈ a.edits, Encodable e.newText) (hr : (commit host sink a s).result = .ok r) :
    Encodable r.document.text := by
  have hlayout : ∀ {d : Document} {k : Int} {edits : List Edit},
      Layout.format d k = .ok edits → ∀ e ∈ edits, Encodable e.newText :=
    fun hf e hm => Layout.encodable_of_mem_format hf hm
  have hh := history_commit host sink a s
  generalize commit host sink a s = outcome at hh hr
  generalize attempts host sink a s = tried at hh
  cases hh with
  | idle =>
    obtain rfl := Except.ok.inj hr
    exact hd
  | @failed e => cases e <;> simp [fail] at hr
  | stopped => simp at hr
  | @layoutFailed _ _ _ _ e => cases e <;> simp [fail] at hr
  | plain first =>
    obtain rfl := Except.ok.inj hr
    exact encodable_of_applyEdits hd he (hs _ _ _ _ _ first)
  | laidOut lays first format_eq second =>
    obtain rfl := Except.ok.inj hr
    have hfirst := encodable_of_applyEdits hd he (hs _ _ _ _ _ first)
    exact encodable_of_applyEdits hfirst (hlayout format_eq) (hs _ _ _ _ _ second)

theorem edits_of_commit {a r : Applied} (hr : (commit host sink a s).result = .ok r) :
    r.edits = a.edits := by
  have hh := history_commit host sink a s
  generalize commit host sink a s = outcome at hh hr
  generalize attempts host sink a s = tried at hh
  cases hh with
  | @failed e => cases e <;> simp [fail] at hr
  | stopped => simp at hr
  | @layoutFailed _ _ _ _ e => cases e <;> simp [fail] at hr
  | idle | plain | laidOut =>
    obtain rfl := Except.ok.inj hr
    rfl

theorem plain_title {d : Document} {p : Position} {settings : Settings} {a : Action}
    (ha : a ∈ d.actionsAt p settings) : Text.Plain a.title := by
  rcases List.mem_append.mp ha with ha | ha
  · have hkind : ∀ kind : Codegen.MemberKind, Text.Plain kind.title := by
      intro kind
      cases kind <;> decide
    obtain ⟨-, -, kind, -, -, rfl⟩ := Document.mem_memberActions ha
    exact hkind kind
  · have hconstructor : Text.Plain constructorTitle := by decide
    obtain ⟨-, rfl, -⟩ := Document.mem_constructorAction (Option.mem_toList.mp ha)
    exact hconstructor

/-- So do actions that are offered, unless the prefix of private members cannot be encoded. -/
theorem encodable_of_execute {d : Document} {p : Position} {settings : Settings} {a : Action}
    {r : Applied} (hs : sink.Applies) (hd : Encodable d.text)
    (hf : Encodable settings.privatePrefix) (ha : a ∈ d.actionsAt p settings)
    (hr : (a.execute host sink s).result = .ok r) : Encodable r.document.text := by
  obtain ⟨rfl, -, hc⟩ := Document.placed_of_mem_actionsAt ha
  rw [(execute_eq host hc sink s).1] at hr
  exact encodable_of_commit hs hd (Document.encodable_of_mem_actionsAt hd hf ha) hr

end Action

namespace CommandLine

variable {w : Workspace} {output : Output} {target : Target} {dryRun : Bool}

/-- The text of an applied action can be encoded if that holds of the path and of both documents. -/
theorem encodable_appliedText {a : Action} {before : Text} {r : Applied}
    (ht : Text.Plain a.title) (hb : Encodable before) (hr : Encodable r.document.text)
    (hp : Encodable target.file) :
    Encodable (appliedText .plain target dryRun a before r) := by
  have hend : Encodable ("\n" : Text) := by decide
  unfold appliedText
  dsimp only
  split
  · simp only [lineOf, encodable_append]
    exact ⟨⟨⟨by decide, ht.encodable⟩, by decide⟩, hend⟩
  · split
    · exact Diff.forall_mem_unified (fun _ hc => hc.isSome_char?) hp hb hr
    · simp only [lineOf, encodable_append]
      have hquoted : Encodable (Text.quoted a.title) := by
        intro c hc
        rcases Text.mem_quoted hc with hc | hc
        · exact ht.encodable c hc
        · exact hc.isSome_char?
      exact ⟨⟨⟨⟨⟨⟨⟨by decide, hquoted⟩, by decide⟩, hp⟩, by decide⟩,
        (Text.plain_ofNat _).encodable⟩, by decide⟩, hend⟩

theorem plain_appliedText (timestamp : Text) (a : Action) (before : Text) (r : Applied) :
    Text.Plain (appliedText (.json timestamp) target dryRun a before r) := by
  exact Text.plain_append.mpr ⟨Json.plain_render _, by decide⟩

/-! ## What is shown -/

theorem tree_shown (platform : Platform) (r : Run) : (r.shown platform).tree = r.tree := by
  unfold Run.shown
  dsimp only
  split <;> rfl

/-- Control sequences are shown on a terminal only. -/
def display (platform : Platform) (text : Text) : Text :=
  if platform.isTerminal then text else Text.dropControlSequences text

theorem shown_of_encodes {platform : Platform} {r : Run}
    (h : ∀ c ∈ r.stdout, platform.encodes c = true) :
    (r.shown platform).result = r.result ∧
      (r.shown platform).stdout = display platform r.stdout := by
  have hall : r.stdout.all platform.encodes = true := List.all_eq_true.mpr h
  rw [Run.shown, if_pos hall, display]
  refine ⟨rfl, ?_⟩
  cases platform.isTerminal <;> rfl

theorem shown_of_not_encodes {platform : Platform} {r : Run}
    (h : ¬ ∀ c ∈ r.stdout, platform.encodes c = true) :
    (r.shown platform).result = .error .unencodable := by
  have hall : ¬ r.stdout.all platform.encodes = true := mt List.all_eq_true.mp h
  rw [Run.shown, if_neg hall]

/-- What appears of a printed text: JSON appears as it is. -/
def Output.appearance (platform : Platform) : Output → Text → Text
  | .plain, text => display platform text
  | .json _, text => text

/-- The command and the tool did the same: they applied the same action with the same result, they
failed with the same exit code, or the same error stopped them. -/
inductive Agrees (platform : Platform) (output : Output) (timestamp : Text) (target : Target)
    (dryRun : Bool) (command : Run) (tool : Except CommandError Json) : Prop
  | applied (a : Action) (r : Applied) (messages : List Message) (before : Text)
      (exit : command.result = .ok Report.ExitCode.success)
      (stdout : command.stdout =
        output.appearance platform (appliedText output target dryRun a before r))
      (answer : tool = .ok (Tool.appliedJson timestamp dryRun a messages r))
  | failed (f g : Report.Failure) (code_eq : f.code = g.code)
      (foreseen : f.code ∈
        [Report.ExitCode.fileMissing, Report.ExitCode.noAction, Report.ExitCode.applyFailed])
      (result : command.result = .error (.failed f)) (answer : tool = .ok g.toJson)
  | stopped (e : CommandError) (result : command.result = .error e) (answer : tool = .error e)

variable {platform : Platform} {timestamp : Text} {command : Run}

theorem agrees_failed {f g : Report.Failure} (hc : f.code = g.code)
    (hf : f.code ∈
      [Report.ExitCode.fileMissing, Report.ExitCode.noAction, Report.ExitCode.applyFailed]) :
    Agrees platform output timestamp target dryRun ((Run.fail w (.failed f)).shown platform)
      (Tool.answer (.error (.failed g))) :=
  .failed f g hc hf rfl rfl

theorem agrees_ofOutcome {σ : Type} {a : Action} {o : Outcome σ} (tree : FileTree) (before : Text)
    (he : ∀ r, o.result = .ok r →
      ∀ c ∈ appliedText output target dryRun a before r, platform.encodes c = true) :
    Agrees platform output timestamp target dryRun
      ((Run.ofOutcome tree (appliedText output target dryRun a before) o).shown platform)
      (Tool.outcomeAnswer timestamp dryRun a o) := by
  unfold Run.ofOutcome Tool.outcomeAnswer
  cases hr : o.result with
  | error e =>
    cases e with
    | rejected command why =>
      exact .failed _ _ rfl (by simp [Report.Failure.code]) rfl rfl
    | _ => exact .stopped _ rfl rfl
  | ok r =>
    obtain ⟨hresult, hstdout⟩ := shown_of_encodes (r :=
      { tree, stderr := o.messages.flatMap messageLine,
        stdout := appliedText output target dryRun a before r }) (he r hr)
    refine .applied a r o.messages before hresult (hstdout.trans ?_) rfl
    cases output with
    | plain => rfl
    | json timestamp =>
      rw [display, Text.dropControlSequences_eq_self (plain_appliedText timestamp a _ r), ite_self]
      rfl

/-- What is said about a path can be printed. All JSON is ASCII. Otherwise standard output has to
encode all characters, and the path and the prefix of private members must not hold half of a
surrogate pair. -/
def Printable (w : Workspace) (path : Text) : Output → Prop
  | .json _ => ∀ c : CodePoint, c.IsPlain → w.platform.encodes c = true
  | .plain => (∀ c : CodePoint, c.char?.isSome = true → w.platform.encodes c = true) ∧
      Encodable path ∧
      ∀ settings, w.settingsFor path [] = .ok settings → Encodable settings.privatePrefix

/-- A file that cannot be opened is reported as missing, and faulty settings stop the run. -/
theorem openAt_error {path : Text} {p : Position} {e : CommandError}
    (h : Tool.openAt w path p = .error e) :
    e = .failed (.fileMissing path) ∨ ∃ c, e = .config c := by
  rw [Action.openAt_eq] at h
  cases hd : w.loadDocument path with
  | error f =>
    rw [hd] at h
    rw [← Except.error.inj h]
    unfold Workspace.loadDocument at hd
    split at hd
    · cases hr : w.readSource path with
      | error x => simp_all
      | ok text => simp [hr] at hd
    · rw [← Except.error.inj hd]
      exact Or.inl rfl
  | ok document =>
    rw [hd] at h
    cases hs : w.settingsFor path [] with
    | error c =>
      rw [hs] at h
      exact Or.inr ⟨c, (Except.error.inj h).symm⟩
    | ok settings => simp [hs] at h

/-- What an opened action leaves can be printed. -/
theorem Printable.encodes_appliedText {path : Text} {p : Position} {opened : Workspace.Opened}
    {a : Action} {r : Applied} {σ : Type} {host : Host} {sink : Sink σ} {s : σ} {i : Nat}
    (h : Printable w path output) (ho : Tool.openAt w path p = .ok opened)
    (hi : opened.actions[i]? = some a) (hs : sink.Applies) (hf : target.file = path)
    (hr : (a.execute host sink s).result = .ok r) :
    ∀ c ∈ appliedText output target dryRun a opened.document.text r,
      w.platform.encodes c = true := by
  cases output with
  | json timestamp => exact (plain_appliedText timestamp a _ r).forall h
  | plain =>
    obtain ⟨hencodes, hpath, hlead⟩ := h
    obtain ⟨hcurrent, ha⟩ := Action.current_of_openAt ho hi
    obtain ⟨-, hsettings, -⟩ := Action.loaded_of_openAt ho
    have hbefore := hcurrent.encodable
    have hafter := Action.encodable_of_execute hs hbefore (hlead _ hsettings) ha hr
    have htext : Encodable (appliedText .plain target dryRun a opened.document.text r) :=
      CommandLine.encodable_appliedText (Action.plain_title ha) hbefore hafter (hf ▸ hpath)
    exact fun c hc => hencodes c (htext c hc)

/-- The command for a place and a number counted from one. -/
def placed (path : Text) (line character : Int) : Target := ⟨path, line + 1, character + 1, none⟩

variable {path : Text} {line character index : Int}

theorem run_applyLine {reader : Reader} (hreader : Reader.Documented reader) (w : Workspace)
    (timestamp path : Text) (line character index : Int) (json dryRun : Bool)
    (hp : path.head? ≠ some (.char '-')) (hn : FileTree.refusal? path = none)
    (hu : w.isUnreadable path = false) (hl : Text.Readable (line + 1))
    (hc : Text.Readable (character + 1)) (hi : Text.Readable (index + 1)) :
    run w reader timestamp (applyLine json dryRun path (line + 1) (character + 1) (index + 1)) =
      (runApply w (if json then .json timestamp else .plain) (placed path line character)
        (.index (index + 1)) dryRun true).shown w.platform := by
  rw [run, hreader.apply w json dryRun path _ _ _ hp hn hu hl hc hi]
  rfl

theorem tree_runApply_eq (w : Workspace) (output : Output) (timestamp path : Text)
    (hl : 0 ≤ line) (hc : 0 ≤ character) (index : Int) (dryRun : Bool) :
    (runApply w output (placed path line character) (.index (index + 1)) dryRun true).tree =
      (Tool.applyAction w timestamp path ⟨line, character⟩ index dryRun).2 := by
  unfold runApply Tool.applyAction
  rw [placed, openTarget_eq w path hl hc]
  cases Tool.openAt w path ⟨line, character⟩ with
  | error e => rfl
  | ok opened =>
    dsimp only
    rw [select_succ]
    cases if index < 0 then none else opened.actions[index.toNat]? with
    | none => rfl
    | some a =>
      cases dryRun with
      | true =>
        simp only [if_true]
        unfold Run.ofOutcome
        dsimp only
        split <;> rfl
      | false =>
        simp only [Bool.false_eq_true, if_false]
        unfold Run.ofOutcome
        dsimp only
        split <;> rfl

theorem agrees_runApply (w : Workspace) (output : Output) (timestamp path : Text)
    (hl : 0 ≤ line) (hc : 0 ≤ character) (hi : Text.Readable index)
    (hi' : Text.Readable (index + 1)) (dryRun : Bool) (h : Printable w path output) :
    Agrees w.platform output timestamp (placed path line character) dryRun
      ((runApply w output (placed path line character) (.index (index + 1)) dryRun true).shown
        w.platform)
      (Tool.applyAction w timestamp path ⟨line, character⟩ index dryRun).1 := by
  unfold runApply Tool.applyAction
  rw [placed, openTarget_eq w path hl hc]
  cases ho : Tool.openAt w path ⟨line, character⟩ with
  | error e =>
    rcases openAt_error ho with rfl | ⟨c, rfl⟩
    · exact agrees_failed rfl (by simp [Report.Failure.code])
    · exact .stopped _ rfl rfl
  | ok opened =>
    dsimp only
    rw [select_succ]
    cases ha : if index < 0 then none else opened.actions[index.toNat]? with
    | none =>
      obtain ⟨message, hcommand⟩ := toCommandError_index hi' opened.actions.length
      obtain ⟨message', htool⟩ := toCommandError_index hi opened.actions.length
      dsimp only
      rw [hcommand, htool]
      exact agrees_failed rfl (by simp [Report.Failure.code])
    | some a =>
      have ha : opened.actions[index.toNat]? = some a := by
        split at ha
        · simp at ha
        · exact ha
      cases dryRun with
      | true =>
        exact agrees_ofOutcome w.tree _ fun r hr =>
          h.encodes_appliedText ho ha applies_memorySink rfl hr
      | false =>
        exact agrees_ofOutcome _ _ fun r hr =>
          h.encodes_appliedText ho ha (applies_fileSink w.cwd w.faults) rfl hr

/-- The command and the tool leave the same files. They also agree on what they did or why they
failed, except that the command may be unable to print it. The tool may have other room for nested
values, as long as it reads the same settings. -/
theorem command_agrees_with_tool {reader : Reader} (hreader : Reader.Documented reader)
    (w : Workspace) (nesting : Nat) (timestamp path : Text) (line character index : Int)
    (json dryRun : Bool) (hp : path.head? ≠ some (.char '-'))
    (hn : FileTree.refusal? path = none) (hu : w.isUnreadable path = false)
    (hs : (withNesting w nesting).settingsFor path [] = w.settingsFor path []) (hl : 0 ≤ line)
    (hc : 0 ≤ character)
    (hr : Text.Readable (line + 1) ∧ Text.Readable (character + 1) ∧ Text.Readable index ∧
      Text.Readable (index + 1)) :
    (run w reader timestamp
        (applyLine json dryRun path (line + 1) (character + 1) (index + 1))).tree =
        (Tool.applyAction (withNesting w nesting) timestamp path ⟨line, character⟩ index dryRun).2 ∧
      (Printable w path (if json then .json timestamp else .plain) →
        Agrees w.platform (if json then .json timestamp else .plain) timestamp
          (placed path line character) dryRun
          (run w reader timestamp
            (applyLine json dryRun path (line + 1) (character + 1) (index + 1)))
          (Tool.applyAction (withNesting w nesting) timestamp path ⟨line, character⟩ index
            dryRun).1) := by
  obtain ⟨hline, hcharacter, hindex, hindex'⟩ := hr
  rw [run_applyLine hreader w timestamp path line character index json dryRun hp hn hu hline
    hcharacter hindex', applyAction_withNesting timestamp _ index dryRun hs]
  refine ⟨?_, agrees_runApply w _ timestamp path hl hc hindex hindex' dryRun⟩
  rw [tree_shown]
  exact tree_runApply_eq w _ timestamp path hl hc index dryRun

/-- For a file with an action at the place, plain text, and a reader that does as the program's
own. -/
theorem command_agrees_with_tool_on_file :
    ∃ w : Workspace,
      w = { tree := ⟨[(["A.cs"],
              .file ((encode? "class A\n\x7b\npublic A(int x) \x7b\x7d\x7d").getD []))]⟩ } ∧
      ∀ timestamp,
        (run w Invocation.read timestamp (applyLine false false "A.cs" 3 14 1)).tree =
          (Tool.applyAction (withNesting w 900) timestamp "A.cs" ⟨2, 13⟩ 0 false).2 ∧
        Agrees w.platform .plain timestamp (placed "A.cs" 2 13) false
          (run w Invocation.read timestamp (applyLine false false "A.cs" 3 14 1))
          (Tool.applyAction (withNesting w 900) timestamp "A.cs" ⟨2, 13⟩ 0 false).1 := by
  refine ⟨_, rfl, fun timestamp => ?_⟩
  have hreadable : ∀ n : Int, n.natAbs < 10 ^ 2 → Text.Readable n :=
    fun n hlt => Text.readable_of_lt hlt (by decide)
  have hsettings : ∀ nesting ∈ [900, 984], Workspace.settingsFor (withNesting { tree := ⟨[(["A.cs"],
      .file ((encode? "class A\n\x7b\npublic A(int x) \x7b\x7d\x7d").getD []))]⟩ } nesting)
        "A.cs" [] = .ok {} := by
    intro nesting hn
    apply Action.eq_ok_of_mem_toOption
    revert hn nesting
    decide +kernel
  have hcommand := hsettings 984 (by decide)
  obtain ⟨htree, hagrees⟩ := command_agrees_with_tool documented_read
    { tree := ⟨[(["A.cs"],
        .file ((encode? "class A\n\x7b\npublic A(int x) \x7b\x7d\x7d").getD []))]⟩ }
    900 timestamp "A.cs" 2 13 0 false false (by decide) (by decide) (by decide +kernel)
    ((hsettings 900 (by decide)).trans hcommand.symm) (by decide) (by decide)
    ⟨hreadable 3 (by decide), hreadable 14 (by decide), hreadable 0 (by decide),
      hreadable 1 (by decide)⟩
  refine ⟨htree, hagrees ⟨fun _ h => h, by decide, ?_⟩⟩
  intro settings hs
  obtain rfl := Except.ok.inj (hs.symm.trans hcommand)
  decide

/-! ## Where they part -/

theorem run_error {timestamp : Text} {args : List Text} {e : CommandError}
    (h : Invocation.read w args = .error e) :
    (run w Invocation.read timestamp args).result = .error e := by
  rw [run, h]
  rfl

/-- A file that cannot be opened counts as missing. -/
theorem applyAction_of_missing {p : Position} (timestamp : Text) (index : Int) (dryRun : Bool)
    (h : w.loadDocument path = .error (.fileMissing path)) :
    (Tool.applyAction w timestamp path p index dryRun).1 =
      .ok (Report.Failure.fileMissing path).toJson := by
  have hopen : Tool.openAt w path p = .error (.failed (.fileMissing path)) := by
    rw [Tool.openAt, h]
  rw [Tool.applyAction, hopen]
  rfl

theorem run_of_long_line (timestamp : Text) (json dryRun : Bool)
    (hp : path.head? ≠ some (.char '-')) (column index : Int) (hl : ¬ Text.Readable line) :
    ∃ message, (run w Invocation.read timestamp
        (applyLine json dryRun path line column index)).result =
      .error (.usage (.invalidValue (UsageError.hint lineOption.names) message)) := by
  obtain ⟨message, hm⟩ := invocation_applyLine_error (w := w) json dryRun hp column index hl
  exact ⟨message, run_error hm⟩

/-- A path that is refused stops the command, while the tool reports that there is no such file. -/
theorem differs_on_refused {kind : FileError.Kind} (timestamp : Text) (p : Position) (i : Int)
    (json dryRun : Bool) (hp : path.head? ≠ some (.char '-'))
    (hn : FileTree.refusal? path = some kind) (hl : Text.Readable line)
    (hc : Text.Readable character) (hi : Text.Readable index) :
    (run w Invocation.read timestamp (applyLine json dryRun path line character index)).result =
        .error (.file ⟨kind, some path⟩) ∧
      (Tool.applyAction w timestamp path p i dryRun).1 =
        .ok (Report.Failure.fileMissing path).toJson := by
  constructor
  · apply run_error
    apply invocation_applyLine_path json dryRun hp hl hc hi
    simp [ValueKind.check, ValueKind.isPath, hn]
  · apply applyAction_of_missing
    have hfile : w.tree.isFile w.cwd path = false := by
      simp [FileTree.isFile, FileTree.stat, FileTree.objection?, hn]
    rw [Workspace.loadDocument, hfile, if_neg Bool.false_ne_true]

/-- A file that cannot be read is a wrong argument of the command. -/
theorem run_of_unreadable (timestamp : Text) (json dryRun : Bool)
    (hp : path.head? ≠ some (.char '-')) (hn : FileTree.refusal? path = none)
    (hu : w.isUnreadable path = true) (hl : Text.Readable line)
    (hc : Text.Readable character) (hi : Text.Readable index) :
    ∃ message, (run w Invocation.read timestamp
        (applyLine json dryRun path line character index)).result =
      .error (.usage (.invalidValue (UsageError.hint ["FILE"]) message)) := by
  have hcheck : ValueKind.path.check w (UsageError.hint ["FILE"]) path =
      .error (.usage (.invalidValue (UsageError.hint ["FILE"])
        ("Path " ++ Text.quoted path ++ " is not readable."))) := by
    simp [ValueKind.check, ValueKind.isPath, ValueKind.objection?, hn, hu]
  exact ⟨_, run_error (invocation_applyLine_path json dryRun hp hl hc hi hcheck)⟩

/-- A path and a place on it that the command takes. -/
structure TakesPlace (w : Workspace) (path : Text) (line character : Int) : Prop where
  no_option : path.head? ≠ some (.char '-')
  not_refused : FileTree.refusal? path = none
  readable : w.isUnreadable path = false
  line_readable : Text.Readable (line + 1)
  character_readable : Text.Readable (character + 1)
  line_nonneg : 0 ≤ line
  character_nonneg : 0 ≤ character

theorem TakesPlace.withNesting (h : TakesPlace w path line character) (nesting : Nat) :
    TakesPlace (withNesting w nesting) path line character :=
  ⟨h.no_option, h.not_refused, h.readable, h.line_readable, h.character_readable, h.line_nonneg,
    h.character_nonneg⟩

theorem TakesPlace.result_run (h : TakesPlace w path line character) (timestamp : Text)
    (hi : Text.Readable (index + 1)) :
    (run w Invocation.read timestamp
        (applyLine false false path (line + 1) (character + 1) (index + 1))).result =
      ((runApply w .plain (placed path line character) (.index (index + 1)) false true).shown
        w.platform).result :=
  congrArg Run.result (run_applyLine documented_read w timestamp path line character index false
    false h.no_option h.not_refused h.readable h.line_readable h.character_readable hi)

/-- A number that can be written only once it is one greater is named by the command, but not by the
tool. -/
theorem differs_on_index (h : TakesPlace w path line character) (timestamp : Text)
    {opened : Workspace.Opened} (ho : Tool.openAt w path ⟨line, character⟩ = .ok opened)
    (hi : index < 0) (hcommand : Text.Readable (index + 1)) (htool : ¬ Text.Readable index) :
    (∃ message, (run w Invocation.read timestamp
        (applyLine false false path (line + 1) (character + 1) (index + 1))).result =
          .error (.failed (.noAction message))) ∧
      (Tool.applyAction w timestamp path ⟨line, character⟩ index false).1 =
        .error (.number .unwritable) := by
  constructor
  · obtain ⟨message, hm⟩ := toCommandError_index hcommand opened.actions.length
    refine ⟨message, ?_⟩
    rw [h.result_run timestamp hcommand, runApply, placed,
      openTarget_eq w path h.line_nonneg h.character_nonneg, ho]
    dsimp only
    rw [select_succ, if_pos hi]
    dsimp only
    rw [hm]
    rfl
  · have hm := toCommandError_index_error htool opened.actions.length
    rw [Tool.applyAction, ho]
    simp only [hi, if_true, hm]
    rfl

/-- The bound of JSON texts that the configuration for a file exceeds. -/
def exceeded? (w : Workspace) (path : Text) : Option Json.Limit :=
  match w.settingsFor path [] with
  | .error (.limit l) => some l
  | .error .undecodable | .error (.setting _) | .error (.file _) | .ok _ => none

theorem openAt_of_exceeded? {d : Document} {l : Json.Limit} (hd : w.loadDocument path = .ok d)
    (h : exceeded? w path = some l) (p : Position) :
    Tool.openAt w path p = .error (.config (.limit l)) := by
  have hs : w.settingsFor path [] = .error (.limit l) := by
    unfold exceeded? at h
    split at h
    · rename_i hs
      rw [hs, Option.some.inj h]
    all_goals cases h
  simp only [Action.openAt_eq, hd, hs]

/-- A configuration that is nested too deeply for the command stops it. -/
theorem TakesPlace.result_of_exceeded? (h : TakesPlace w path line character) (timestamp : Text)
    {d : Document} {l : Json.Limit} (hd : w.loadDocument path = .ok d)
    (hx : exceeded? w path = some l) (index : Int) (hi : Text.Readable (index + 1)) :
    (run w Invocation.read timestamp
        (applyLine false false path (line + 1) (character + 1) (index + 1))).result =
      .error (.config (.limit l)) := by
  rw [h.result_run timestamp hi, runApply, placed,
    openTarget_eq w path h.line_nonneg h.character_nonneg, openAt_of_exceeded? hd hx]
  rfl

/-- The text about a change names the path. -/
theorem not_encodable_appliedText {a : Action} {before : Text} {r : Applied}
    (hc : r.changed = true) (hp : ¬ Encodable target.file) :
    ¬ Encodable (appliedText .plain target false a before r) := by
  intro h
  apply hp
  apply h.of_subset
  intro c hm
  simp [appliedText, hc, lineOf, hm]

/-- Where no operation fails, an action that can be encoded is applied. -/
theorem exists_result_of_openAt {p : Position} {opened : Workspace.Opened} {a : Action} {i : Nat}
    (hw : w.faults = {}) (hd : Workspace.HoldsTemp (w.absolute path).parent)
    (ho : Tool.openAt w path p = .ok opened) (hi : opened.actions[i]? = some a)
    (hk : 1 ≤ opened.settings.tabSize) (hf : Encodable opened.settings.privatePrefix)
    (he : a.proposed.edits ≠ []) :
    ∃ r, (a.execute { settings := opened.settings } (Workspace.fileSink w.cwd w.faults)
      w.tree).result = .ok r ∧ r.changed = true := by
  obtain ⟨hcurrent, ha⟩ := Action.current_of_openAt ho hi
  obtain ⟨-, -, hc⟩ := Document.placed_of_mem_actionsAt ha
  have hk : 1 ≤ ({ settings := opened.settings } : Host).settings.tabSize := hk
  obtain ⟨r, -, hr, -, -⟩ := Action.exists_inStep_execute hk hcurrent hd hf ha
  rw [hw]
  refine ⟨r, hr, Action.changed_of_edits ?_⟩
  rw [(Action.execute_eq _ hc _ _).1] at hr
  rw [Action.edits_of_commit hr]
  exact he

/-- Where no operation fails, the tool applies the first action that is offered, if that can be
encoded. -/
theorem applies_first {p : Position} {opened : Workspace.Opened} {a : Action} (timestamp : Text)
    (hw : w.faults = {}) (hd : Workspace.HoldsTemp (w.absolute path).parent)
    (ho : Tool.openAt w path p = .ok opened) (hi : opened.actions[0]? = some a)
    (hk : 1 ≤ opened.settings.tabSize) (hf : Encodable opened.settings.privatePrefix)
    (he : a.proposed.edits ≠ []) :
    ∃ messages r, (Tool.applyAction w timestamp path p 0 false).1 =
      .ok (Tool.appliedJson timestamp false a messages r) := by
  obtain ⟨r, hresult, -⟩ := exists_result_of_openAt hw hd ho hi hk hf he
  have htool := Action.applyAction_eq timestamp ho hi
  rw [Tool.outcomeAnswer, hresult] at htool
  exact ⟨_, r, congrArg Prod.fst htool⟩

/-- Then the command cannot print what it did if the path cannot be encoded. -/
theorem TakesPlace.result_of_not_encodable (h : TakesPlace w path line character)
    {opened : Workspace.Opened} {a : Action} (timestamp : Text) (hw : w.faults = {})
    (hd : Workspace.HoldsTemp (w.absolute path).parent)
    (ho : Tool.openAt w path ⟨line, character⟩ = .ok opened) (hi : opened.actions[0]? = some a)
    (hk : 1 ≤ opened.settings.tabSize) (hf : Encodable opened.settings.privatePrefix)
    (he : a.proposed.edits ≠ []) (hp : ¬ Encodable path)
    (hencodes : ∀ c, w.platform.encodes c = true → c.char?.isSome = true) :
    (run w Invocation.read timestamp
        (applyLine false false path (line + 1) (character + 1) 1)).result =
      .error .unencodable := by
  obtain ⟨r, hresult, hchanged⟩ := exists_result_of_openAt hw hd ho hi hk hf he
  have hselect : Action.select opened.actions (.index (0 + 1)) = .ok a := by
    simp [Action.select, hi]
  have hstdout : (runApply w .plain (placed path line character) (.index (0 + 1)) false true).stdout
      = appliedText .plain (placed path line character) false a opened.document.text r := by
    rw [runApply, placed, openTarget_eq w path h.line_nonneg h.character_nonneg, ho]
    simp only [hselect, Bool.false_eq_true, if_false, Run.ofOutcome, hresult]
  have hone : Text.Readable (0 + 1) := Text.readable_of_lt (k := 1) (by decide) (by decide)
  refine (h.result_run timestamp hone).trans (shown_of_not_encodes ?_)
  rw [hstdout]
  exact fun hall => not_encodable_appliedText hchanged hp fun c hc => hencodes c (hall c hc)

/-- The two do not agree on a line with too many digits, on a path that cannot be asked for, on a
file that cannot be read, on a number that can be written only once it is one greater, on a path
that cannot be printed, and where they have different room for nested values. -/
theorem command_differs_from_tool :
    ∃ (source deep : Bytes) (odd : Text) (w : Workspace),
      source = (encode? "class A\n\x7b\npublic A(int x) \x7b\x7d\x7d").getD [] ∧
      deep = (encode? "\x7b\"a\": [[1]]\x7d").getD [] ∧ odd = [.surrogate 0x480] ∧
      w = { tree := ⟨[([odd], .file source), (["A.cs"], .file source), ([".sharpkit"], .directory),
              ([".sharpkit", "config.json"], .file deep)]⟩ } ∧
      ∀ timestamp,
        ((∃ message, (run w Invocation.read timestamp
            (applyLine false false "B" ((10 ^ Text.maxDigits : Nat) + 1) 1 1)).result =
              .error (.usage (.invalidValue (UsageError.hint lineOption.names) message))) ∧
          (Tool.applyAction w timestamp "B" ⟨(10 ^ Text.maxDigits : Nat), 0⟩ 0 false).1 =
            .ok (Report.Failure.fileMissing "B").toJson) ∧
        (∀ path kind, (path, kind) ∈ [("A\x00".text, FileError.Kind.nullByte),
            ([.surrogate 0], .unencodable)] →
          (run w Invocation.read timestamp (applyLine false false path 1 1 1)).result =
              .error (.file ⟨kind, some path⟩) ∧
            (Tool.applyAction w timestamp path ⟨0, 0⟩ 0 false).1 =
              .ok (Report.Failure.fileMissing path).toJson) ∧
        (∃ w' : Workspace, w' = { w with
              faults :=
                { unreadable := fun _ => true, openSource := fun _ => some ⟨.denied, none⟩ } } ∧
          (∃ message, (run w' Invocation.read timestamp
              (applyLine false false "A.cs" 1 1 1)).result =
              .error (.usage (.invalidValue (UsageError.hint ["FILE"]) message))) ∧
            (Tool.applyAction w' timestamp "A.cs" ⟨0, 0⟩ 0 false).1 =
              .ok (Report.Failure.fileMissing "A.cs").toJson) ∧
        ((∃ message, (run w Invocation.read timestamp
            (applyLine false false "A.cs" 3 14 (-(10 ^ Text.maxDigits : Nat) + 1))).result =
              .error (.failed (.noAction message))) ∧
          (Tool.applyAction w timestamp "A.cs" ⟨2, 13⟩ (-(10 ^ Text.maxDigits : Nat)) false).1 =
            .error (.number .unwritable)) ∧
        ((run w Invocation.read timestamp (applyLine false false odd 3 14 1)).result =
            .error .unencodable ∧
          ∃ a messages r, (Tool.applyAction w timestamp odd ⟨2, 13⟩ 0 false).1 =
            .ok (Tool.appliedJson timestamp false a messages r)) ∧
        (run (withNesting w 1) Invocation.read timestamp
            (applyLine false false "A.cs" 3 14 1)).result = .error (.config (.limit .depth)) ∧
          ∃ a messages r, (Tool.applyAction w timestamp "A.cs" ⟨2, 13⟩ 0 false).1 =
            .ok (Tool.appliedJson timestamp false a messages r) := by
  have hreadable : ∀ n : Int, n.natAbs < 10 ^ 2 → Text.Readable n :=
    fun n hlt => Text.readable_of_lt hlt (by decide)
  let source : Bytes := (encode? "class A\n\x7b\npublic A(int x) \x7b\x7d\x7d").getD []
  let deep : Bytes := (encode? "\x7b\"a\": [[1]]\x7d").getD []
  let odd : Text := [.surrogate 0x480]
  let w : Workspace :=
    { tree := ⟨[([odd], .file source), (["A.cs"], .file source), ([".sharpkit"], .directory),
        ([".sharpkit", "config.json"], .file deep)]⟩ }
  have htakes : ∀ path ∈ [odd, "A.cs"], TakesPlace w path 2 13 := by
    intro path hpath
    obtain ⟨hdash, hnone, hread⟩ : path.head? ≠ some (.char '-') ∧
        FileTree.refusal? path = none ∧ w.isUnreadable path = false := by
      revert hpath path
      decide +kernel
    exact ⟨hdash, hnone, hread, hreadable 3 (by decide), hreadable 14 (by decide), by decide,
      by decide⟩
  have hopen : ∀ path ∈ [odd, "A.cs"], ∃ opened ∈ (Tool.openAt w path ⟨2, 13⟩).toOption,
      1 ≤ opened.settings.tabSize ∧ Encodable opened.settings.privatePrefix ∧
        ∃ a ∈ opened.actions[0]?, a.proposed.edits ≠ [] := by
    decide +kernel
  obtain ⟨opened, hopened, hk, hf, a, ha, he⟩ := hopen "A.cs" (by decide)
  obtain ⟨openedOdd, hopenedOdd, hkOdd, hfOdd, b, hb, heOdd⟩ := hopen odd (by decide)
  have hopened := Action.eq_ok_of_mem_toOption hopened
  have hopenedOdd := Action.eq_ok_of_mem_toOption hopenedOdd
  refine ⟨source, deep, odd, w, rfl, rfl, rfl, rfl, fun timestamp => ⟨⟨?_, ?_⟩, ?_, ?_, ?_, ?_, ?_⟩⟩
  · exact run_of_long_line timestamp false false (by decide) 1 1 Text.not_readable_succ
  · exact applyAction_of_missing timestamp 0 false rfl
  · intro path kind hpath
    rw [List.mem_cons, List.mem_singleton, Prod.mk.injEq, Prod.mk.injEq] at hpath
    rcases hpath with ⟨rfl, rfl⟩ | ⟨rfl, rfl⟩ <;>
      exact differs_on_refused timestamp ⟨0, 0⟩ 0 false false (by decide) (by decide)
        (hreadable 1 (by decide)) (hreadable 1 (by decide)) (hreadable 1 (by decide))
  · refine ⟨_, rfl, ?_, ?_⟩
    · exact run_of_unreadable timestamp false false (by decide) (by decide) (by decide +kernel)
        (hreadable 1 (by decide)) (hreadable 1 (by decide)) (hreadable 1 (by decide))
    · exact applyAction_of_missing timestamp 0 false rfl
  · exact differs_on_index (htakes "A.cs" (by decide)) timestamp hopened Text.neg_pow_maxDigits_neg
      Text.readable_neg_succ Text.not_readable_neg
  · constructor
    · exact (htakes odd (by decide)).result_of_not_encodable timestamp rfl (by decide) hopenedOdd hb
        hkOdd hfOdd heOdd (by decide) fun _ h => h
    · exact ⟨b, applies_first timestamp rfl (by decide) hopenedOdd hb hkOdd hfOdd heOdd⟩
  · have hnested := (htakes "A.cs" (by decide)).withNesting 1
    obtain ⟨hloaded, hx⟩ : ((withNesting w 1).loadDocument "A.cs").toOption.isSome = true ∧
        exceeded? (withNesting w 1) "A.cs" = some .depth := by
      decide +kernel
    obtain ⟨d, hd⟩ := Option.isSome_iff_exists.mp hloaded
    exact ⟨hnested.result_of_exceeded? timestamp (Action.eq_ok_of_mem_toOption hd) hx 0
      (hreadable 1 (by decide)), a, applies_first timestamp rfl (by decide) hopened ha hk hf he⟩

end CommandLine

end CSharpActions
