import CSharpActions.Proofs.Action.Attempts
import CSharpActions.Proofs.Codegen.Encoding
import CSharpActions.Proofs.Declaration.Signature
import CSharpActions.Tool

/-!
# Dry runs

A run in memory and a run on a file that nobody else changes go through the same documents, and the
file has the text that the memory holds. They part only where the text cannot be encoded, and the
text of an offered action can be encoded unless the settings bring in half of a surrogate pair.
-/
namespace CSharpActions

open Text.Utf8 (Encodable encode?)

/-! ## What offered actions insert -/

namespace Document

variable {d : Document} {p : Position} {s : Settings}

theorem textIn_subset (d : Document) (r : Range) : d.textIn r ⊆ d.text :=
  fun _ hc => List.mem_of_mem_drop (List.mem_of_mem_take hc)

theorem encodable_selected {selected : Selected} (hd : Encodable d.text)
    (h : d.selectedParameter p = some selected) :
    Encodable selected.name ∧ Encodable selected.type := by
  obtain ⟨-, -, -, a, b, sig, -, -, -, hw, -, hsig, ht⟩ := exists_of_selectedParameter h
  refine ⟨fun c hc => Text.char?_of_isWord (hw.word c hc), ?_⟩
  intro c hc
  rcases Parameter.mem_of_mem_type ht hc with rfl | hc
  · rfl
  · exact hd c (textIn_subset d _ (Signature.parameters_subset hsig hc))

theorem char?_of_isTypeChar {c : CodePoint} (h : PropertyDecl.isTypeChar c = true) :
    c.char?.isSome = true := by
  simp only [PropertyDecl.isTypeChar, Bool.or_eq_true, decide_eq_true_eq] at h
  rcases h with (((((h | rfl) | rfl) | rfl) | rfl) | rfl) | rfl
  · exact Text.char?_of_isWord h
  all_goals rfl

/-- An offered action inserts what can be encoded, if that holds of the prefix of private
members. -/
theorem encodable_of_mem_actionsAt (hd : Encodable d.text) (hf : Encodable s.privatePrefix)
    {a : Action} (h : a ∈ d.actionsAt p s) :
    ∀ e ∈ a.plan.edits d.text, Encodable e.newText := by
  rcases List.mem_append.mp h with h | h
  · obtain ⟨selected, body, kind, hs, hb, rfl⟩ := mem_memberActions h
    obtain ⟨hname, htype⟩ := encodable_selected hd hs
    have hm := Codegen.encodable_generateMember kind
      (isProper_styleAt d s selected.signatureLine) hf htype hname
    intro e he
    obtain ⟨f, hf, rfl⟩ := List.mem_map.mp he
    have hf := (List.mem_filter.mp hf).1
    simp only [Action.memberFragments, List.mem_cons, List.not_mem_nil, or_false] at hf
    rcases hf with rfl | rfl
    · exact hm.1
    · exact hm.2
  · obtain ⟨owner, first, rest, ho, hprops, rfl⟩ :=
      exists_of_constructorAction (Option.mem_toList.mp h)
    obtain ⟨line, -, i, hclass⟩ := exists_of_lastClass ho
    obtain ⟨hmod, hname⟩ := ClassDecl.forall_of_find? hclass
    have hmodifiers : ∀ w ∈ ClassDecl.accessModifiers, Encodable w := by decide
    have hfields : ∀ f ∈ (first :: rest).map (·.toField),
        Encodable f.type ∧ Encodable f.name := by
      intro f hf
      obtain ⟨q, hq, rfl⟩ := List.mem_map.mp hf
      rw [← hprops] at hq
      obtain ⟨-, -, l, -, found, hfound, ht, hn⟩ := exists_of_mem_propertiesFrom hq
      obtain ⟨h₁, h₂⟩ := PropertyDecl.forall_of_find? hfound
      rw [ht] at h₁
      rw [hn] at h₂
      exact ⟨fun c hc => char?_of_isTypeChar (h₁ c hc), fun c hc => Text.char?_of_isWord (h₂ c hc)⟩
    intro e he
    obtain rfl := List.mem_singleton.mp he
    exact Codegen.encodable_generateConstructor (isProper_styleAt d s first.lineNumber)
      (hmodifiers _ hmod) (fun c hc => Text.char?_of_isWord (hname c hc)) hfields

end Document

namespace Action

/-! ## Runs in step -/

variable {host : Host} {cwd : Location} {before t : FileTree} {path : Text} {d : Document}
  {m : Memory} {edits : List Edit}

/-- A batch that is accepted wherever no operation fails. -/
structure Accepts (d : Document) (edits : List Edit) : Prop where
  exists_text : ∃ text, d.applyEdits edits = .ok text
  encodable : ∀ e ∈ edits, Encodable e.newText

/-- The memory and the file both hold the document, and no other file has changed. -/
structure InStep (cwd : Location) (path start : Text) (before : FileTree) (d : Document)
    (m : Memory) (t : FileTree) : Prop where
  memory : m.textAfter start = d.text
  current : Workspace.Current cwd t d path
  elsewhere : ∀ l, l ≠ Path.resolve cwd path → t.node? l = before.node? l

theorem InStep.apply {start : Text} (h : InStep cwd path start before d m t)
    (hr : Workspace.HoldsTemp (Path.absolute cwd path).parent) (ha : Accepts d edits) :
    ∃ d' m' t', (memorySink none).apply d edits m = (.ok d', m') ∧
      (Workspace.fileSink cwd {}).apply d edits t = (.ok d', t') ∧
      InStep cwd path start before d' m' t' := by
  obtain ⟨text, ht⟩ := ha.exists_text
  have hready : Workspace.Ready cwd t d edits path text := ⟨h.current, ht⟩
  obtain ⟨content, hc⟩ := (hready.encodable ha.encodable).exists_bytes
  obtain ⟨old, ho, -⟩ := h.current.exists_content
  obtain ⟨-, -, hne⟩ := FileTree.exists_of_contentAt ho
  refine ⟨_, _, _, memorySink_apply ht, Workspace.writeEdits_eq hready hr hc, rfl,
    h.current.put hc, ?_⟩
  intro l hl
  rw [FileTree.node?_put hne, if_neg hl]
  exact h.elsewhere l hl

theorem accepts_format {tabSize : Int} (hk : 1 ≤ tabSize) (d : Document) :
    ∃ edits, Layout.format d tabSize = .ok edits ∧ Accepts d edits := by
  obtain ⟨edits, hf, ht, -⟩ := Layout.applyEdits_format hk (Line.reads_read d.text)
  refine ⟨edits, hf, ⟨_, ht⟩, ?_⟩
  exact fun e he => Layout.encodable_of_mem_format hf he

/-- A commit goes the same way in memory and on the file. -/
theorem InStep.commit {start : Text} {a : Applied} (hk : 1 ≤ host.settings.tabSize)
    (h : InStep cwd path start before a.document m t)
    (hr : Workspace.HoldsTemp (Path.absolute cwd path).parent) (ha : Accepts a.document a.edits) :
    ∃ applied m' t', Action.commit host (memorySink none) a m = ⟨.ok applied, [], m'⟩ ∧
      Action.commit host (Workspace.fileSink cwd {}) a t = ⟨.ok applied, [], t'⟩ ∧
      InStep cwd path start before applied.document m' t' := by
  unfold Action.commit
  cases he : a.edits.isEmpty with
  | true => exact ⟨a, m, t, rfl, rfl, h⟩
  | false =>
    obtain ⟨d₁, m₁, t₁, hm₁, ht₁, h₁⟩ := h.apply hr ha
    simp only [hm₁, ht₁, Bool.false_eq_true, if_false]
    cases hl : host.settings.reformat && host.formats with
    | false => exact ⟨_, m₁, t₁, rfl, rfl, h₁⟩
    | true =>
      obtain ⟨edits, hf, hedits⟩ := accepts_format hk d₁
      rw [if_pos rfl, if_pos rfl, hf]
      cases edits with
      | nil => exact ⟨_, m₁, t₁, rfl, rfl, h₁⟩
      | cons e es =>
        obtain ⟨d₂, m₂, t₂, hm₂, ht₂, h₂⟩ := h₁.apply hr hedits
        simp only [hm₂, ht₂]
        exact ⟨_, m₂, t₂, rfl, rfl, h₂⟩

/-- What an action says before its commit does not depend on the sink. -/
theorem exists_note (host : Host) {a : Action} (hc : a.command = a.plan.command) :
    ∃ note : List Message, ∀ {σ : Type} (sink : Sink σ) (s : σ),
      (a.execute host sink s).messages = note ++ (Action.commit host sink a.proposed s).messages := by
  obtain ⟨title, command, plan, d⟩ := a
  obtain rfl : command = plan.command := hc
  cases plan with
  | member plan => exact ⟨_, fun sink s => rfl⟩
  | constructor plan => exact ⟨[], fun sink s => rfl⟩

/-- What a dry run tells of the real one. -/
structure Predicts (w : Workspace) (path : Text) (d : Document) (dry : Outcome Memory)
    (real : Outcome FileTree) : Prop where
  exists_applied : ∃ applied, dry.result = .ok applied ∧ real.result = .ok applied ∧
    dry.sink.textAfter d.text = applied.document.text ∧
    ({ w with tree := real.sink } : Workspace).readSource path = .ok applied.document.text
  messages_eq : dry.messages = real.messages
  elsewhere : ∀ l, l ≠ w.locate path → real.sink.node? l = w.tree.node? l

theorem tree_applyAction (w : Workspace) (timestamp path : Text) (p : Position) (index : Int) :
    (Tool.applyAction w timestamp path p index true).2 = w.tree := by
  unfold Tool.applyAction
  split
  · rfl
  · dsimp only
    split <;> rfl

theorem tree_runApply (w : Workspace) (output : CommandLine.Output) (target : CommandLine.Target)
    (choice : Choice) (reformat : Bool) :
    (CommandLine.runApply w output target choice true reformat).tree = w.tree := by
  unfold CommandLine.runApply
  split
  · rfl
  · split
    · rfl
    · simp only [if_true, CommandLine.Run.ofOutcome]
      split <;> rfl

theorem exists_inStep_execute {p : Position} {s : Settings} {a : Action}
    (hk : 1 ≤ host.settings.tabSize) (hd : Workspace.Current cwd before d path)
    (hr : Workspace.HoldsTemp (Path.absolute cwd path).parent)
    (hf : Encodable s.privatePrefix) (ha : a ∈ d.actionsAt p s) :
    ∃ applied, (a.execute host (memorySink none) {}).result = .ok applied ∧
      (a.execute host (Workspace.fileSink cwd {}) before).result = .ok applied ∧
      (a.execute host (memorySink none) {}).messages =
        (a.execute host (Workspace.fileSink cwd {}) before).messages ∧
      InStep cwd path d.text before applied.document (a.execute host (memorySink none) {}).sink
        (a.execute host (Workspace.fileSink cwd {}) before).sink := by
  obtain ⟨rfl, hplaced, hc⟩ := Document.placed_of_mem_actionsAt ha
  obtain ⟨text, ht, -⟩ := hplaced.exists_applyEdits
  have haccepts : Accepts a.proposed.document a.proposed.edits :=
    ⟨⟨text, ht⟩, Document.encodable_of_mem_actionsAt hd.encodable hf ha⟩
  have hstart : InStep cwd path a.document.text before a.proposed.document {} before :=
    ⟨rfl, hd, fun _ _ => rfl⟩
  obtain ⟨applied, m, t, hm, ht, hstep⟩ := hstart.commit hk hr haccepts
  obtain ⟨note, hnote⟩ := exists_note host hc
  obtain ⟨hdry, hdrySink⟩ := execute_eq host hc (memorySink none) {}
  obtain ⟨hreal, hrealSink⟩ := execute_eq host hc (Workspace.fileSink cwd {}) before
  rw [hm] at hdry hdrySink
  rw [ht] at hreal hrealSink
  refine ⟨applied, hdry, hreal, ?_, ?_⟩
  · rw [hnote, hnote, hm, ht]
  · rw [hdrySink, hrealSink]
    exact hstep

/-- A dry run says what the real run does, and leaves the files alone, as long as no file operation
fails. -/
theorem dry_run_predicts (w : Workspace) (path : Text) (d : Document) (p : Position)
    (s : Settings) (host : Host) (a : Action) (hw : w.faults = {})
    (hr : Workspace.HoldsTemp (w.absolute path).parent)
    (hd : w.loadDocument path = .ok d) (hk : 1 ≤ host.settings.tabSize)
    (hf : Encodable s.privatePrefix) (ha : a ∈ d.actionsAt p s) :
    Predicts w path d (a.execute host (memorySink none) {})
        (a.execute host (Workspace.fileSink w.cwd w.faults) w.tree) ∧
      (∀ timestamp q index, (Tool.applyAction w timestamp path q index true).2 = w.tree) ∧
      ∀ output target choice reformat,
        (CommandLine.runApply w output target choice true reformat).tree = w.tree := by
  refine ⟨?_, fun timestamp => tree_applyAction w timestamp path, tree_runApply w⟩
  obtain ⟨tree, cwd, env, faults⟩ := w
  obtain rfl : faults = {} := hw
  obtain ⟨applied, hdry, hreal, hmessages, hstep⟩ :=
    exists_inStep_execute hk (Workspace.current_of_loadDocument hd) hr hf ha
  exact ⟨⟨applied, hdry, hreal, hstep.memory, hstep.current.readSource_eq {} rfl⟩, hmessages,
    hstep.elsewhere⟩

/-- The file ends in a byte that is no character. -/
theorem dry_run_predicts_for_faulty_file :
    ∃ (w : Workspace) (d : Document),
      w = { tree := ⟨[(["A.cs"],
        .file ((encode? "class A\n\x7b\npublic A(int x) \x7b\x7d\x7d").getD [] ++ [0xE9]))]⟩ } ∧
      d = ⟨"class A\n\x7b\npublic A(int x) \x7b\x7d\x7d\uFFFD", some "A.cs"⟩ ∧
      w.faults = {} ∧ Workspace.HoldsTemp (w.absolute "A.cs").parent ∧
      w.loadDocument "A.cs" = .ok d ∧ (1 : Int) ≤ ({} : Host).settings.tabSize ∧
      Encodable ({} : Settings).privatePrefix ∧
      ∃ a ∈ d.actionsAt ⟨2, 13⟩ {},
        Predicts w "A.cs" d (a.execute {} (memorySink none) {})
            (a.execute {} (Workspace.fileSink w.cwd w.faults) w.tree) ∧
          (∀ timestamp q index, (Tool.applyAction w timestamp "A.cs" q index true).2 = w.tree) ∧
          ∀ output target choice reformat,
            (CommandLine.runApply w output target choice true reformat).tree = w.tree := by
  refine ⟨_, _, rfl, rfl, rfl, by decide, by decide +kernel, by decide, by decide, ?_⟩
  obtain ⟨a, ha⟩ : ∃ a, a ∈ Document.actionsAt
      ⟨"class A\n\x7b\npublic A(int x) \x7b\x7d\x7d\uFFFD", some "A.cs"⟩ ⟨2, 13⟩ {} := by
    have hne : Document.actionsAt
        ⟨"class A\n\x7b\npublic A(int x) \x7b\x7d\x7d\uFFFD", some "A.cs"⟩ ⟨2, 13⟩ {} ≠ [] := by
      decide +kernel
    exact List.exists_mem_of_ne_nil _ hne
  exact ⟨a, ha, dry_run_predicts _ "A.cs" _ ⟨2, 13⟩ {} {} a rfl (by decide) (by decide +kernel)
    (by decide) (by decide) ha⟩

theorem execute_of_unencodable (host : Host) {a : Action} (hc : a.command = a.plan.command)
    (h : a.plan.Placed a.document) (hd : Workspace.Current cwd t a.document path)
    (hr : Workspace.HoldsTemp (Path.absolute cwd path).parent) {e : Edit}
    (hm : e ∈ a.plan.edits a.document.text) (hu : ¬ Encodable e.newText) :
    (a.execute host (Workspace.fileSink cwd {}) t).result = .error .unencodable := by
  obtain ⟨temp, -, -, hw⟩ := exists_writeEdits_of_placed h hd hr hm hu
  have hne : a.proposed.edits.isEmpty = false := by
    have hn := List.ne_nil_of_mem hm
    simpa [proposed] using hn
  rw [(execute_eq host hc _ t).1, commit, hne]
  simp only [Bool.false_eq_true, if_false, Workspace.fileSink, proposed, hw]
  rfl

/-- With half of a surrogate pair in the prefix, the dry run succeeds and the real one fails. -/
theorem dry_run_succeeds_where_real_run_fails :
    ∃ (w : Workspace) (d : Document) (s : Settings),
      w = { tree := ⟨[(["A.cs"],
        .file ((encode? "class A\n\x7b\npublic A(int x) \x7b\x7d\x7d").getD []))]⟩ } ∧
      d = ⟨"class A\n\x7b\npublic A(int x) \x7b\x7d\x7d", some "A.cs"⟩ ∧
      s = { privatePrefix := [.surrogate 0] } ∧ w.loadDocument "A.cs" = .ok d ∧ 1 ≤ s.tabSize ∧
      ∃ a ∈ d.actionsAt ⟨2, 13⟩ s,
        (∃ applied, (a.execute ⟨s, true⟩ (memorySink none) {}).result = .ok applied) ∧
          (a.execute ⟨s, true⟩ (Workspace.fileSink w.cwd w.faults) w.tree).result =
            .error .unencodable := by
  refine ⟨_, _, _, rfl, rfl, rfl, by decide +kernel, by decide, ?_⟩
  obtain ⟨a, ha, e, hm, hu⟩ : ∃ a ∈ Document.actionsAt
      ⟨"class A\n\x7b\npublic A(int x) \x7b\x7d\x7d", some "A.cs"⟩ ⟨2, 13⟩
        { privatePrefix := [.surrogate 0] },
      ∃ e ∈ a.plan.edits a.document.text, ¬ Encodable e.newText := by
    decide +kernel
  obtain ⟨hd, hplaced, hc⟩ := Document.placed_of_mem_actionsAt ha
  rw [hd] at hplaced
  have hcurrent : Workspace.Current [] ⟨[(["A.cs"],
      .file ((encode? "class A\n\x7b\npublic A(int x) \x7b\x7d\x7d").getD []))]⟩
      a.document "A.cs" := by
    rw [← hd]
    exact ⟨rfl, by decide +kernel⟩
  exact ⟨a, ha, execute_memory_of_placed (by decide) hc hplaced,
    execute_of_unencodable _ hc hplaced hcurrent (by decide) hm hu⟩

end Action

end CSharpActions
