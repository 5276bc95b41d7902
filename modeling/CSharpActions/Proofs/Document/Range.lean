import CSharpActions.Proofs.Document.Word
import CSharpActions.Proofs.Edit.Simultaneous

/-!
# Ranges of a document

The lines of a document give its text with the terminators behind them. Since offsets follow
positions, ranges that meet lose nothing of the text, the range of a line holds that line, and an
edit whose range is in order is never refused.
-/
namespace CSharpActions

namespace Line

variable {t : Text} {l : Line} {pre post : List Line}

/-- LF or CR LF ends every line but the last, and nothing or a lone CR ends the last. -/
theorem Reads.exists_terminated {ls : List Line} (h : Reads t ls) :
    ∃ init last, ls = init ++ [last] ∧ (∀ l ∈ init, IsBreak l.ending) ∧
      (last.ending = [] ∨ last.ending = [.char '\r']) := by
  have hcut := (List.dropLast_concat_getLast h.ne_nil).symm
  rw [hcut] at h
  refine ⟨_, _, hcut, fun l hl => ?_, ?_⟩
  · exact (h.split.1 l hl).2.symm.imp And.left id
  · exact h.final_last.2.symm.imp And.left id

end Line

namespace Document

variable {d : Document} {p q r : Position} {e : Edit} {line : Text} {n : Int}

theorem textIn_append (hpq : p ≤ q) (hqr : q ≤ r) :
    d.textIn ⟨p, q⟩ ++ d.textIn ⟨q, r⟩ = d.textIn ⟨p, r⟩ :=
  slice_append_slice (monotone_offsetAt d hpq) (monotone_offsetAt d hqr)

theorem textIn_of_line? (h : d.line? n = some line) :
    d.textIn ⟨⟨n, 0⟩, ⟨n, line.length⟩⟩ = line := by
  obtain ⟨pre, l, post, hd, rfl, rfl⟩ := line?_eq_some h
  simpa using textIn_line hd (a := []) (w := l.content) (b := []) (by simp)

theorem ordered_of_le (h : e.range.start ≤ e.range.stop) : e.Ordered d := monotone_offsetAt d h

/-- A batch is carried out, or an edit of it that ends before it starts is reported. -/
theorem applyEdits_cases (d : Document) (edits : List Edit) :
    (∃ t, d.applyEdits edits = .ok t) ∨
      ∃ e ∈ edits, d.applyEdits edits = .error ⟨e.range⟩ ∧ e.range.stop < e.range.start := by
  rcases Edit.resolveAll_cases d edits with ⟨-, hr⟩ | ⟨e, he, hne, hr⟩
  · exact Or.inl ⟨_, by rw [applyEdits, hr]; rfl⟩
  · refine Or.inr ⟨e, he, by rw [applyEdits, hr]; rfl, ?_⟩
    exact not_le.mp fun hle => hne (ordered_of_le hle)

/-- Lines and offsets lose nothing and keep the order of positions. The lines give the text with
their terminators, and each starts behind those above it. Offsets follow positions, strictly so
inside the document, where positions are moved to. Ranges that meet add up, and only an edit that
ends before it starts is refused. -/
theorem lossless_and_monotone (d : Document) :
    (∃ init last, d.lines = (init ++ [last]).map Line.content ∧
      d.text = Line.join (init ++ [last]) ∧ (∀ l ∈ init, Line.IsBreak l.ending) ∧
      (last.ending = [] ∨ last.ending = [.char '\r']) ∧
      lineStarts d.text = (List.range d.lineCount).map fun n =>
        (Line.join ((init ++ [last]).take n)).length) ∧
    Monotone d.offsetAt ∧ StrictMonoOn d.offsetAt d.inside ∧
    (∀ p, d.offsetAt p ≤ d.text.length) ∧
    (∀ p, d.clamp p ∈ d.inside ∧ d.clamp (d.clamp p) = d.clamp p) ∧
    (∀ n line, d.line? n = some line → d.textIn ⟨⟨n, 0⟩, ⟨n, line.length⟩⟩ = line) ∧
    (∀ p q r, p ≤ q → q ≤ r → d.textIn ⟨p, q⟩ ++ d.textIn ⟨q, r⟩ = d.textIn ⟨p, r⟩) ∧
    (∀ edits, (∀ e ∈ edits, e.range.start ≤ e.range.stop) → ∃ t, d.applyEdits edits = .ok t) ∧
    ∀ edits err, d.applyEdits edits = .error err →
      ∃ e ∈ edits, e.range = err.range ∧ e.range.stop < e.range.start := by
  have hd := Line.reads_read d.text
  obtain ⟨init, last, hls, hinit, hlast⟩ := hd.exists_terminated
  rw [hls] at hd
  refine ⟨⟨init, last, lines_eq hd, hd.join_eq.symm, hinit, hlast, ?_⟩, monotone_offsetAt d,
    strictMonoOn_offsetAt d, offsetAt_le_length d,
    fun p => ⟨clamp_mem_inside d p, clamp_clamp d p⟩, fun n line => textIn_of_line?,
    fun p q r => textIn_append, fun edits ho => ?_, fun edits err herr => ?_⟩
  · rw [lineCount_eq hd]
    exact lineStarts_eq hd
  · exact exists_applyEdits_eq fun e he => ordered_of_le (ho e he)
  · rcases applyEdits_cases d edits with ⟨t, ht⟩ | ⟨e, he, hr, hlt⟩
    · rw [ht] at herr
      cases herr
    · obtain rfl := Except.error.inj (hr.symm.trans herr)
      exact ⟨e, he, rfl, hlt⟩

/-- Three kinds of line ends, and positions above the document, past the end of a line and below
the document. -/
theorem lossless_and_monotone_for_mixed_endings :
    ∃ (d : Document) (p q r : Position), d.text = "a\r\r\n\nb\r" ∧ p = ⟨-3, 7⟩ ∧ q = ⟨0, 5⟩ ∧
      r = ⟨9, -1⟩ ∧ p ≤ q ∧ q ≤ r ∧
      d.textIn ⟨p, q⟩ ++ d.textIn ⟨q, r⟩ = d.textIn ⟨p, r⟩ ∧
      d.line? 0 = some [.char 'a', .char '\r'] ∧
      d.textIn ⟨⟨0, 0⟩, ⟨0, 2⟩⟩ = [.char 'a', .char '\r'] ∧
      (∃ t, d.applyEdits [⟨⟨p, q⟩, "x"⟩] = .ok t) ∧
      d.applyEdits [⟨⟨r, q⟩, "y"⟩] = .error ⟨⟨r, q⟩⟩ ∧ q < r := by
  obtain ⟨d, hd⟩ : ∃ d : Document, d = ⟨"a\r\r\n\nb\r", none⟩ := ⟨_, rfl⟩
  obtain ⟨-, -, -, -, -, hlines, happend, haccepts, hrefused⟩ := lossless_and_monotone d
  have hpq : (⟨-3, 7⟩ : Position) ≤ ⟨0, 5⟩ := by decide
  have hqr : (⟨0, 5⟩ : Position) ≤ ⟨9, -1⟩ := by decide
  have hline : d.line? 0 = some [.char 'a', .char '\r'] := by
    subst hd
    decide
  have herr : d.applyEdits [⟨⟨⟨9, -1⟩, ⟨0, 5⟩⟩, "y"⟩] = .error ⟨⟨⟨9, -1⟩, ⟨0, 5⟩⟩⟩ := by
    subst hd
    decide
  have hown : d.textIn ⟨⟨0, 0⟩, ⟨0, 2⟩⟩ = [.char 'a', .char '\r'] := by
    simpa using hlines 0 _ hline
  have hbefore : (⟨0, 5⟩ : Position) < ⟨9, -1⟩ := by
    obtain ⟨e, he, -, hlt⟩ := hrefused _ _ herr
    rwa [List.mem_singleton.mp he] at hlt
  refine ⟨d, ⟨-3, 7⟩, ⟨0, 5⟩, ⟨9, -1⟩, by rw [hd], rfl, rfl, rfl, hpq, hqr, ?_, hline, hown, ?_,
    herr, hbefore⟩
  · exact happend _ _ _ hpq hqr
  · exact haccepts _ (List.forall_mem_singleton.mpr hpq)

end Document

end CSharpActions
