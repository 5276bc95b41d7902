import CSharpActions.Proofs.Edit.Batch
import CSharpActions.Proofs.FileTree.Entry
import CSharpActions.Proofs.Text.Utf8
import CSharpActions.Workspace.FileSink

/-!
# Writing a batch

There are three ways in which a batch of edits to a file ends. It is accepted, and the file has the
new text; it is refused, and nothing has changed; or the new text cannot be encoded, and an empty
temporary file stays behind.
-/
namespace CSharpActions.Workspace

open Text.Utf8 (Bytes)

variable {cwd : Location} {faults : Faults} {t : FileTree} {target : Path} {text : Text}

theorem tempName_injective : Function.Injective tempName := by
  intro a b h
  exact Text.ofNat_injective (List.append_cancel_left (List.append_cancel_right h))

/-- How the replacement of a file ends. -/
inductive Replaced (t : FileTree) (l : Location) (text : Text) :
    Except ReplaceError Unit × FileTree → Prop
  | failed {e : ReplaceError} (h : e ≠ .unencodable) : Replaced t l text (.error e, t)
  | unencodable {n : Nat} (encoded : Text.Utf8.encode? text = none)
      (free : t.node? (l.parent ++ [tempName n]) = none) :
      Replaced t l text (.error .unencodable, t.put (l.parent ++ [tempName n]) (.file []))
  | done {content : Bytes} (encoded : Text.Utf8.encode? text = some content) :
      Replaced t l text (.ok (), t.put l (.file content))

/-- The temporary file is gone again, unless the text cannot be encoded. -/
theorem replaced_replaceFile (faults : Faults) (t : FileTree) (target : Path) (text : Text) :
    Replaced t target.names text (replaceFile faults t target text) := by
  obtain ⟨n, hn, hfree⟩ := t.exists_freshIn (Location.parent target.names) tempName_injective
  have hne : Location.parent target.names ++ [tempName n] ≠ [] := by simp
  unfold replaceFile
  dsimp only
  rw [hn]
  cases tempFault? faults target.parent with
  | some e => exact .failed ReplaceError.noConfusion
  | none =>
    cases he : Text.Utf8.encode? text with
    -- no failure of an operation, so that nobody removes the file
    | none => exact .unencodable he hfree
    | some content =>
      cases faults.writeTemp with
      | some e =>
        simp only [FileTree.remove_put hne hfree]
        exact .failed ReplaceError.noConfusion
      | none =>
        cases faults.replace with
        | some e =>
          simp only [FileTree.put_put, FileTree.remove_put hne hfree]
          exact .failed ReplaceError.noConfusion
        | none =>
          simp only [FileTree.put_put, FileTree.remove_put hne hfree]
          exact .done he

theorem tempFault?_eq_none {directory : Path} (hr : HoldsTemp directory) (faults : Faults)
    (hc : faults.createTemp = none) : tempFault? faults directory = none := by
  rw [tempFault?, hc]
  exact if_pos hr

theorem replaceFile_eq {content : Bytes} (hr : HoldsTemp target.parent)
    (h : Text.Utf8.encode? text = some content) :
    replaceFile {} t target text = (.ok (), t.put target.names (.file content)) := by
  obtain ⟨n, hn, hfree⟩ := t.exists_freshIn (Location.parent target.names) tempName_injective
  simp only [replaceFile, tempFault?_eq_none hr {} rfl, hn, h, FileTree.put_put,
    FileTree.remove_put (by simp : Location.parent target.names ++ [tempName n] ≠ []) hfree]

/-- The file with the given path is that of the document, and has its text. -/
structure Current (cwd : Location) (t : FileTree) (d : Document) (path : Text) : Prop where
  path_eq : d.path = some path
  text_eq : (t.contentAt cwd path).map Text.Utf8.decodeLossy = .ok d.text

/-- The file of a document is up to date, and a batch makes another text of it. -/
structure Ready (cwd : Location) (t : FileTree) (d : Document) (edits : List Edit)
    (path text : Text) : Prop extends Current cwd t d path where
  applyEdits_eq : d.applyEdits edits = .ok text

variable {d : Document} {edits : List Edit} {path : Text} {content : Bytes}

theorem contentAt_of_readSource {w : Workspace} {path text : Text}
    (h : w.readSource path = .ok text) :
    (w.tree.contentAt w.cwd path).map Text.Utf8.decodeLossy = .ok text := by
  unfold readSource at h
  split at h
  · simp at h
  · simp at h
  · exact h

theorem current_of_loadDocument {w : Workspace} {path : Text} {d : Document}
    (h : w.loadDocument path = .ok d) : Current w.cwd w.tree d path := by
  unfold loadDocument at h
  split at h
  · cases hr : w.readSource path with
    | error e => simp [hr] at h
    | ok text =>
      simp only [hr, Except.ok.injEq] at h
      obtain rfl := h
      exact ⟨rfl, contentAt_of_readSource hr⟩
  · simp at h

theorem Current.exists_content (h : Current cwd t d path) :
    ∃ old, t.contentAt cwd path = .ok old ∧ Text.Utf8.decodeLossy old = d.text := by
  have ht := h.text_eq
  cases hc : t.contentAt cwd path with
  | error e => simp [hc, Except.map] at ht
  | ok old => exact ⟨old, rfl, by simpa [hc, Except.map] using ht⟩

theorem Current.encodable (h : Current cwd t d path) : Text.Utf8.Encodable d.text := by
  obtain ⟨old, -, ht⟩ := h.exists_content
  rw [← ht]
  exact Text.Utf8.encodable_decodeLossy old

/-- The path of an open document has not been refused. -/
theorem Current.refusal?_eq_none (h : Current cwd t d path) : FileTree.refusal? path = none := by
  obtain ⟨old, ho, -⟩ := h.exists_content
  obtain ⟨hf, -, -⟩ := FileTree.exists_of_contentAt ho
  exact FileTree.refusal?_of_objection? (FileTree.exists_of_openFile hf).1

theorem Current.readSource_eq (h : Current cwd t d path) (faults : Faults)
    (hf : faults.openSource path = none) :
    ({ tree := t, cwd, faults } : Workspace).readSource path = .ok d.text := by
  rw [readSource, h.refusal?_eq_none, hf]
  exact h.text_eq

theorem Current.put (h : Current cwd t d path) (he : Text.Utf8.encode? text = some content) :
    Current cwd (t.put (Path.resolve cwd path) (.file content)) (d.withText text) path := by
  obtain ⟨old, ho, -⟩ := h.exists_content
  refine ⟨h.path_eq, ?_⟩
  rw [FileTree.contentAt_put ho, Except.map, Text.Utf8.decodeLossy_of_encode? he]
  rfl

theorem Ready.encodable (h : Ready cwd t d edits path text)
    (he : ∀ e ∈ edits, Text.Utf8.Encodable e.newText) : Text.Utf8.Encodable text := by
  intro c hc
  rcases Document.mem_applyEdits h.applyEdits_eq hc with hc | ⟨e, hm, hc⟩
  · exact h.toCurrent.encodable c hc
  · exact he e hm c hc

/-- How a batch for the file of a document ends. -/
inductive Written (cwd : Location) (t : FileTree) (d : Document) (edits : List Edit) :
    Except SinkError Document × FileTree → Prop
  | refused {e : SinkError} (h : e ≠ .unencodable) : Written cwd t d edits (.error e, t)
  | unencodable {path text : Text} {n : Nat} (ready : Ready cwd t d edits path text)
      (encoded : Text.Utf8.encode? text = none)
      (free : t.node? ((Path.resolve cwd path).parent ++ [tempName n]) = none) :
      Written cwd t d edits
        (.error .unencodable, t.put ((Path.resolve cwd path).parent ++ [tempName n]) (.file []))
  | accepted {path text : Text} {content : Bytes} (ready : Ready cwd t d edits path text)
      (encoded : Text.Utf8.encode? text = some content) :
      Written cwd t d edits
        (.ok (d.withText text), t.put (Path.resolve cwd path) (.file content))

theorem written_writeEdits (cwd : Location) (faults : Faults) (d : Document) (edits : List Edit)
    (t : FileTree) : Written cwd t d edits (writeEdits cwd faults d edits t) := by
  unfold writeEdits
  cases hp : d.path with
  | none => exact .refused SinkError.noConfusion
  | some path =>
    dsimp only
    by_cases hempty : path.isEmpty
    · rw [if_pos hempty]
      exact .refused SinkError.noConfusion
    rw [if_neg hempty]
    cases hr : Workspace.readSource { tree := t, cwd, faults } path with
    | error e =>
      dsimp only
      split
      · exact .refused SinkError.noConfusion
      · exact .refused SinkError.noConfusion
    | ok current =>
      dsimp only
      by_cases hc : current = d.text
      · rw [if_neg (by simpa using hc)]
        rw [Document.edited_eq]
        cases ha : d.applyEdits edits with
        | error e => exact .refused SinkError.noConfusion
        | ok text =>
          dsimp only [Except.mapError]
          have hready : Ready cwd t d edits path text :=
            ⟨⟨hp, hc ▸ contentAt_of_readSource hr⟩, ha⟩
          have hrep := replaced_replaceFile faults t (Path.absolute cwd path) text
          dsimp only [absolute]
          generalize replaceFile faults t (Path.absolute cwd path) text = r at hrep ⊢
          cases hrep with
          | @failed e h =>
            cases e with
            | create cause => exact .refused SinkError.noConfusion
            | write cause => exact .refused SinkError.noConfusion
            | unencodable => exact absurd rfl h
          | unencodable encoded free => exact .unencodable hready encoded free
          | done encoded => exact .accepted hready encoded
      · rw [if_pos hc]
        exact .refused SinkError.noConfusion

theorem Current.isEmpty_eq (h : Current cwd t d path) : path.isEmpty = false := by
  obtain ⟨old, ho, -⟩ := h.exists_content
  cases path with
  | nil =>
    rw [FileTree.contentAt, FileTree.openFile, FileTree.stat] at ho
    simp [FileTree.objection?, FileTree.refusal?, Except.map] at ho
  | cons c r => rfl

/-- Where no operation fails, a batch is accepted if its text can be encoded. -/
theorem writeEdits_eq (h : Ready cwd t d edits path text)
    (hr : HoldsTemp (Path.absolute cwd path).parent)
    (he : Text.Utf8.encode? text = some content) : writeEdits cwd {} d edits t =
      (.ok (d.withText text), t.put (Path.resolve cwd path) (.file content)) := by
  simp only [writeEdits, h.path_eq, h.isEmpty_eq, h.readSource_eq {} rfl,
    Document.edited_eq_ok_iff.mpr h.applyEdits_eq, absolute, replaceFile_eq hr he]
  simp [Path.absolute]

theorem exists_writeEdits_eq (h : Ready cwd t d edits path text)
    (hr : HoldsTemp (Path.absolute cwd path).parent) (he : Text.Utf8.encode? text = none) :
    ∃ n, t.node? ((Path.resolve cwd path).parent ++ [tempName n]) = none ∧
      writeEdits cwd {} d edits t = (.error .unencodable,
        t.put ((Path.resolve cwd path).parent ++ [tempName n]) (.file [])) := by
  obtain ⟨n, hn, hfree⟩ := t.exists_freshIn (Path.resolve cwd path).parent tempName_injective
  refine ⟨n, hfree, ?_⟩
  have hname : (Path.absolute cwd path).names = Path.resolve cwd path := rfl
  simp only [writeEdits, h.path_eq, h.isEmpty_eq, h.readSource_eq {} rfl,
    Document.edited_eq_ok_iff.mpr h.applyEdits_eq, absolute, replaceFile,
    tempFault?_eq_none hr {} rfl, he, hname, hn]
  simp

end CSharpActions.Workspace
