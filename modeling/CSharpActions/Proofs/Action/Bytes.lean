import CSharpActions.Proofs.Action.DryRun

/-!
# What actions keep of a file

An action that only inserts keeps every character of the document. It keeps every byte of the file
as well if each of them belonged to a character; a faulty byte is written back as the character
that took its place.
-/
namespace CSharpActions

open Text.Utf8 (Bytes Encodable Faultless encode? decode? decodeLossy)

namespace Inserted

variable {ps : List Text} {kept whole : Text}

theorem exists_bytes (h : Inserted ps kept whole) {old new : Bytes} (ho : encode? kept = some old)
    (hn : encode? whole = some new) :
    ∃ qs, ps.map encode? = qs.map some ∧ Inserted qs old new := by
  induction h generalizing old new with
  | nil y =>
    obtain rfl := Option.some.inj (ho.symm.trans hn)
    exact ⟨[], rfl, .nil _⟩
  | cons x p rest ih =>
    obtain ⟨x₁, y₁, hx, hy, rfl⟩ := Text.Utf8.exists_of_encode?_append ho
    obtain ⟨x₂, r, hx', hr, rfl⟩ := Text.Utf8.exists_of_encode?_append hn
    obtain ⟨q, z, hq, hz, rfl⟩ := Text.Utf8.exists_of_encode?_append hr
    obtain rfl := Option.some.inj (hx.symm.trans hx')
    obtain ⟨qs, hqs, hins⟩ := ih hy hz
    exact ⟨q :: qs, by rw [List.map_cons, List.map_cons, hq, hqs], .cons x₁ q hins⟩

/-- Texts that are taken out of a text leave a text. -/
theorem faultless {qs : List Bytes} {old new : Bytes} (h : Inserted qs old new)
    (hq : ∀ q ∈ qs, Faultless q) (hn : Faultless new) : Faultless old := by
  induction qs generalizing old new with
  | nil =>
    cases h with
    | nil => exact hn
  | cons q qs ih =>
    obtain ⟨hq, hqs⟩ := List.forall_mem_cons.mp hq
    cases h with
    | @cons x q qs y z rest =>
      -- an empty piece gives no place where a character begins
      by_cases he : q = []
      · subst he
        exact ih (rest.prepend x) hqs hn
      · have hx := Faultless.of_append_left hn hq he
        exact hx.append (ih rest hqs ((hn.of_append hx).of_append hq))

theorem isSome_decode? {edits : List Edit} {qs : List Bytes} {old new : Bytes}
    (he : edits.map (fun e => encode? e.newText) = qs.map some) (hn : Faultless new)
    (h : Inserted qs old new) : (decode? old).isSome = true := by
  have hq : ∀ q ∈ qs, Faultless q := by
    intro q hq
    have hm : some q ∈ qs.map some := List.mem_map_of_mem hq
    rw [← he] at hm
    obtain ⟨e, -, hq⟩ := List.mem_map.mp hm
    exact ⟨e.newText, hq⟩
  exact Text.Utf8.faultless_iff.mp (h.faultless hq hn)

end Inserted

namespace Action

variable {host : Host} {cwd : Location} {faults : Faults} {t : FileTree} {path : Text}
  {d : Document} {p : Position} {s : Settings} {content : Bytes}

/-- What a file holds after a successful run that does not indent: the document with the pieces of
the edits in between. -/
theorem exists_inserted_of_execute {a : Action} {applied : Applied}
    (hd : Workspace.Current cwd t d path) (ha : a ∈ d.actionsAt p s) (hl : host.lays = false)
    (hne : a.proposed.edits ≠ [])
    (hr : (a.execute host (Workspace.fileSink cwd faults) t).result = .ok applied) :
    applied.edits = a.proposed.edits ∧ ∃ old new pieces, encode? d.text = some old ∧
      (a.execute host (Workspace.fileSink cwd faults) t).sink.contentAt cwd path = .ok new ∧
      Faultless new ∧ applied.edits.map (fun e => encode? e.newText) = pieces.map some ∧
      Inserted pieces old new := by
  obtain ⟨rfl, hplaced, hc⟩ := Document.placed_of_mem_actionsAt ha
  obtain ⟨hresult, hsink⟩ := execute_eq host hc (Workspace.fileSink cwd faults) t
  rw [hsink]
  rw [hresult] at hr
  have hh := history_commit host (Workspace.fileSink cwd faults) a.proposed t
  generalize commit host (Workspace.fileSink cwd faults) a.proposed t = outcome at hh hr ⊢
  generalize attempts host (Workspace.fileSink cwd faults) a.proposed t = tried at hh
  cases hh with
  | idle hn => exact absurd hn hne
  | @failed e s₁ first => cases e <;> simp [fail] at hr
  | stopped lays first => simp at hr
  | layoutFailed lays first format_eq second => simp [hl] at lays
  | laidOut lays first format_eq second => simp [hl] at lays
  | @plain d₁ s₁ first =>
    obtain rfl := Except.ok.inj hr
    have hw := Workspace.written_writeEdits cwd faults a.document a.proposed.edits t
    rw [show Workspace.writeEdits cwd faults a.document a.proposed.edits t = (.ok d₁, s₁) from first]
      at hw
    cases hw with
    | @accepted path' text new ready encoded =>
      obtain rfl : path' = path := Option.some.inj (ready.path_eq.symm.trans hd.path_eq)
      obtain ⟨text', ht', hins⟩ := hplaced.exists_applyEdits
      obtain rfl : text = text' := Except.ok.inj (ready.applyEdits_eq.symm.trans ht')
      obtain ⟨old, hold⟩ := hd.encodable.exists_bytes
      obtain ⟨pieces, hpieces, hb⟩ := hins.exists_bytes hold encoded
      obtain ⟨before, hbefore, -⟩ := hd.exists_content
      refine ⟨rfl, old, new, pieces, hold, FileTree.contentAt_put hbefore new, ⟨text, encoded⟩, ?_,
        hb⟩
      rw [← hpieces, List.map_map]
      rfl

/-- Taking the inserted bytes out again gives the file as it was exactly if all its bytes belonged
to characters, or nothing was inserted. -/
theorem execute_keeps_bytes_iff (w : Workspace) (path : Text) (content : Bytes) (d : Document)
    (p : Position) (s : Settings) (host : Host) (a : Action) (applied : Applied)
    (hcontent : w.tree.contentAt w.cwd path = .ok content) (hd : w.loadDocument path = .ok d)
    (ha : a ∈ d.actionsAt p s) (hr : host.settings.reformat = false)
    (happlied :
      (a.execute host (Workspace.fileSink w.cwd w.faults) w.tree).result = .ok applied) :
    ∃ new pieces,
      (a.execute host (Workspace.fileSink w.cwd w.faults) w.tree).sink.contentAt w.cwd path =
        .ok new ∧
      applied.edits.map (fun e => encode? e.newText) = pieces.map some ∧
      (Inserted pieces content new ↔ applied.edits = [] ∨ (decode? content).isSome = true) := by
  have hcurrent := Workspace.current_of_loadDocument hd
  have hl : host.lays = false := by rw [Host.lays, hr, Bool.false_and]
  by_cases he : a.proposed.edits = []
  · obtain ⟨-, -, hc⟩ := Document.placed_of_mem_actionsAt ha
    obtain ⟨hresult, hsink⟩ := execute_of_nil host hc he (Workspace.fileSink w.cwd w.faults) w.tree
    obtain rfl : a.proposed = applied := Except.ok.inj (hresult.symm.trans happlied)
    refine ⟨content, [], ?_, ?_, fun _ => Or.inl he, fun _ => .nil content⟩
    · rw [hsink]
      exact hcontent
    · rw [he]
      rfl
  · obtain ⟨hedits, old, new, pieces, hold, hnew, hfaultless, hpieces, hins⟩ :=
      exists_inserted_of_execute hcurrent ha hl he happlied
    refine ⟨new, pieces, hnew, hpieces, ?_, ?_⟩
    · intro h
      exact Or.inr (h.isSome_decode? hpieces hfaultless)
    · rintro (hn | hdec)
      · exact absurd (hedits.symm.trans hn) he
      · obtain ⟨before, hbefore, ht⟩ := hcurrent.exists_content
        obtain rfl := Except.ok.inj (hbefore.symm.trans hcontent)
        rw [← ht, Text.Utf8.encode?_decodeLossy_iff.mpr hdec] at hold
        rwa [← Option.some.inj hold] at hins

/-- The file begins with a byte order mark, and its lines end in two characters. -/
theorem execute_keeps_bytes_of_marked_file :
    ∃ (content : Bytes) (w : Workspace) (d : Document) (host : Host) (a : Action)
        (applied : Applied),
      content =
        (encode? "\uFEFFclass A // é\r\n\x7b\r\npublic A(int x) \x7b\x7d\x7d").getD [] ∧
      w = { tree := ⟨[(["A.cs"], .file content)]⟩ } ∧
      host = { settings := { reformat := false } } ∧
      w.tree.contentAt w.cwd "A.cs" = .ok content ∧ w.loadDocument "A.cs" = .ok d ∧
      a ∈ d.actionsAt ⟨2, 13⟩ {} ∧ host.settings.reformat = false ∧
      (a.execute host (Workspace.fileSink w.cwd w.faults) w.tree).result = .ok applied ∧
      ∃ new pieces,
        (a.execute host (Workspace.fileSink w.cwd w.faults) w.tree).sink.contentAt w.cwd "A.cs" =
          .ok new ∧
        applied.edits.map (fun e => encode? e.newText) = pieces.map some ∧
        (Inserted pieces content new ↔
          applied.edits = [] ∨ (decode? content).isSome = true) := by
  have hne : Document.actionsAt
      ⟨"\uFEFFclass A // é\r\n\x7b\r\npublic A(int x) \x7b\x7d\x7d", some "A.cs"⟩ ⟨2, 13⟩ {} ≠ [] := by
    decide +kernel
  obtain ⟨a, ha⟩ := List.exists_mem_of_ne_nil _ hne
  have hd : Workspace.loadDocument { tree := ⟨[(["A.cs"], .file
      ((encode? "\uFEFFclass A // é\r\n\x7b\r\npublic A(int x) \x7b\x7d\x7d").getD []))]⟩ }
      "A.cs" = .ok ⟨"\uFEFFclass A // é\r\n\x7b\r\npublic A(int x) \x7b\x7d\x7d", some "A.cs"⟩ := by
    decide +kernel
  have hk : 1 ≤ (Host.settings { settings := { reformat := false } }).tabSize := by decide
  obtain ⟨applied, -, hrun, -⟩ := exists_inStep_execute hk (Workspace.current_of_loadDocument hd)
    (by decide) (by decide) ha
  exact ⟨_, _, _, _, a, applied, rfl, rfl, rfl, rfl, hd, ha, rfl, hrun,
    execute_keeps_bytes_iff _ "A.cs" _ _ ⟨2, 13⟩ {} _ a applied rfl hd ha rfl hrun⟩

/-- A byte that is no character is not kept. -/
theorem execute_rewrites_faulty_byte :
    ∃ (content new : Bytes) (w : Workspace) (d : Document) (host : Host) (a : Action)
        (applied : Applied) (pieces : List Bytes),
      content = (encode? "class A\n\x7b\npublic A(int x) \x7b\x7d\x7d").getD [] ++ [0xE9] ∧
      w = { tree := ⟨[(["A.cs"], .file content)]⟩ } ∧
      host = { settings := { reformat := false } } ∧
      w.loadDocument "A.cs" = .ok d ∧ a ∈ d.actionsAt ⟨2, 13⟩ {} ∧
      (a.execute host (Workspace.fileSink w.cwd w.faults) w.tree).result = .ok applied ∧
      (a.execute host (Workspace.fileSink w.cwd w.faults) w.tree).sink.contentAt w.cwd "A.cs" =
        .ok new ∧
      applied.edits.map (fun e => encode? e.newText) = pieces.map some ∧
      ¬ Inserted pieces content new := by
  have hd : Workspace.loadDocument { tree := ⟨[(["A.cs"], .file
      ((encode? "class A\n\x7b\npublic A(int x) \x7b\x7d\x7d").getD [] ++ [0xE9]))]⟩ }
      "A.cs" = .ok ⟨"class A\n\x7b\npublic A(int x) \x7b\x7d\x7d\uFFFD", some "A.cs"⟩ := by
    decide +kernel
  obtain ⟨a, ha, hne⟩ : ∃ a ∈ Document.actionsAt
      ⟨"class A\n\x7b\npublic A(int x) \x7b\x7d\x7d\uFFFD", some "A.cs"⟩ ⟨2, 13⟩ {},
      a.proposed.edits ≠ [] := by
    decide +kernel
  have hk : 1 ≤ (Host.settings { settings := { reformat := false } }).tabSize := by decide
  obtain ⟨applied, -, hrun, -⟩ := exists_inStep_execute hk (Workspace.current_of_loadDocument hd)
    (by decide) (by decide) ha
  obtain ⟨-, old, new, pieces, -, hnew, hfaultless, hpieces, -⟩ :=
    exists_inserted_of_execute (Workspace.current_of_loadDocument hd) ha rfl hne hrun
  refine ⟨_, new, _, _, _, a, applied, pieces, rfl, rfl, rfl, hd, ha, hrun, hnew, hpieces, ?_⟩
  intro h
  have hdec := h.isSome_decode? hpieces hfaultless
  have hfaulty : (decode? ((encode? "class A\n\x7b\npublic A(int x) \x7b\x7d\x7d").getD [] ++
      [0xE9])).isSome = false := by
    decide +kernel
  simp [hfaulty] at hdec

end Action

end CSharpActions
