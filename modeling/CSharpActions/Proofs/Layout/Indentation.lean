import CSharpActions.Proofs.Document.Position
import CSharpActions.Proofs.Layout.Stability

/-!
# What a pass may touch

A pass replaces the indentation of lines and nothing else. As comments and literals do not begin in
the indentation, every line begins inside of the same thing after the pass as before it.
-/
namespace CSharpActions.Layout

open Document (isIndent indentOf)

/-- What each line begins inside of, and what the text ends inside of. -/
def carries (c : Carry) (lines : List Text) : List Carry := c :: (stripLines c lines).map (·.2)

@[simp] theorem carries_nil (c : Carry) : carries c [] = [c] := rfl

/-- Whether a line keeps its indentation if it begins inside of `c`: inside of a comment or a
literal, without any character but blanks, or with a number sign as the first other one. -/
def Stays (c : Carry) (line : Text) : Prop :=
  c ≠ .code ∨ Document.isBlankLine line = true ∨
    line.find? (!Text.isBlank ·) = some (CodePoint.char '#')

instance (c : Carry) (line : Text) : Decidable (Stays c line) :=
  inferInstanceAs (Decidable (_ ∨ _ ∨ _))

theorem head?_trim (t : Text) : (Text.trim t).head? = t.find? (!Text.isBlank ·) := by
  rw [List.find?_not_eq_head?_dropWhile, Text.trim_eq]
  obtain ⟨r, hr⟩ := List.rdropWhile_prefix Text.isBlank (t.dropWhile Text.isBlank)
  cases h : (t.dropWhile Text.isBlank).rdropWhile Text.isBlank with
  | cons c s =>
    rw [h] at hr
    rw [← hr]
    rfl
  | nil =>
    -- only blanks are left, and the first character is none
    rw [List.rdropWhile_eq_nil_iff] at h
    cases hs : t.dropWhile Text.isBlank with
    | nil => rfl
    | cons c s =>
      have hc : Text.isBlank c = false := Text.false_of_head?_dropWhile (t := t) (by rw [hs]; rfl)
      rw [hs] at h
      simp [h c List.mem_cons_self] at hc

theorem fixed_of_stays {s : State} {line : Text} (h : Stays s.carry line) :
    s.fixed line = true := by
  simp only [State.fixed, Bool.or_eq_true, decide_eq_true_iff]
  rcases h with h | h | h
  · exact Or.inl (Or.inl h)
  · refine Or.inl (Or.inr ?_)
    rw [List.isEmpty_iff, Text.trim_eq_nil_iff]
    simpa [Document.isBlankLine] using h
  · refine Or.inr ?_
    rw [head?_trim, h]
    rfl

variable {unit : Text} {c : CodePoint}

/-! ## Edits -/

theorem isIndent_of_mem_indent {line new : Text} {p : Placement} {x : CodePoint}
    (hu : ∀ x ∈ unit, isIndent x = true) (h : p.indent unit line = .ok new) (hx : x ∈ new) :
    isIndent x = true := by
  cases p with
  | keep =>
    obtain rfl := Except.ok.inj h
    exact Document.isIndent_of_mem_indentOf hx
  | level n =>
    obtain rfl := Except.ok.inj h
    obtain ⟨u, hm, hxu⟩ := List.mem_flatten.mp hx
    rw [List.eq_of_mem_replicate hm] at hxu
    exact hu x hxu
  | column n =>
    cases unit with
    | nil => simp [Placement.indent] at h
    | cons y u =>
      obtain rfl := Except.ok.inj h
      rw [List.eq_of_mem_replicate hx]
      exact hu y List.mem_cons_self

/-- Each edit of a pass gives one line another indentation. -/
theorem exists_of_mem_editsFrom {n : Nat} {s : State} {lines : List Text} {edits : List Edit}
    (h : editsFrom unit n s lines = .ok edits) {e : Edit} (he : e ∈ edits) :
    ∃ (m : Nat) (p : Placement) (line new : Text), p.indent unit line = .ok new ∧
      e = ⟨⟨⟨m, 0⟩, ⟨m, (indentOf line).length⟩⟩, new⟩ := by
  induction lines generalizing n s edits with
  | nil =>
    obtain rfl := Except.ok.inj h
    simp at he
  | cons l r ih =>
    rw [editsFrom] at h
    cases hi : (s.placeLine l).indent unit l with
    | error err => simp [hi] at h
    | ok new =>
      rw [hi] at h
      cases hr : editsFrom unit (n + 1) (s.next unit.length l) r with
      | error err => simp [hr, Except.map] at h
      | ok rest =>
        rw [hr] at h
        obtain rfl := Except.ok.inj h
        rcases List.mem_append.mp he with he | he
        · rw [indentEdit?] at he
          split at he
          · simp at he
          · obtain rfl := by simpa using he
            exact ⟨n, _, l, new, hi, rfl⟩
        · exact ih hr he

/-- Whatever the size of a tab, a pass writes nothing but spaces and tabs. -/
theorem isIndent_of_mem_format {d : Document} {tabSize : Int} {edits : List Edit}
    (h : format d tabSize = .ok edits) {e : Edit} (he : e ∈ edits) {x : CodePoint}
    (hx : x ∈ e.newText) : isIndent x = true := by
  rw [format_eq_editsFrom] at h
  obtain ⟨m, p, line, new, hi, rfl⟩ := exists_of_mem_editsFrom h he
  exact isIndent_of_mem_indent (fun _ => Document.isIndent_of_mem_unitFor) hi hx

/-- Whatever the size of a tab, the ranges of a pass are in order. -/
theorem ordered_of_mem_format {d : Document} {tabSize : Int} {edits : List Edit}
    (h : format d tabSize = .ok edits) {e : Edit} (he : e ∈ edits) : e.Ordered d := by
  rw [format_eq_editsFrom] at h
  obtain ⟨m, p, line, new, -, rfl⟩ := exists_of_mem_editsFrom h he
  exact Document.monotone_offsetAt d (Or.inr ⟨rfl, by simp⟩)

/-! ## Lines -/

end CSharpActions.Layout
