import CSharpActions.Document
import CSharpActions.Proofs.Text.Fragment
import CSharpActions.Proofs.Text.Splitting

/-!
# Lines with their endings

A text is a sequence of lines, each with the line break that ends it. `Reads t ls` says that `ls`
are the lines of `t`; every text has exactly one such sequence, and putting it together again gives
the text. The offsets of a document are lengths of lines.
-/
namespace CSharpActions

/-- What stands on a line, and the line break after it. -/
structure Line where
  content : Text
  ending : Text
deriving DecidableEq, Repr

namespace Line

def text (l : Line) : Text := l.content ++ l.ending

def join (ls : List Line) : Text := ls.flatMap text

/-- The line ends with the feed, or with a carriage return and the feed. -/
def EndsWith (feed : Text) (l : Line) : Prop :=
  CodePoint.char '\n' ∉ l.content ∧
    (l.ending = .char '\r' :: feed ∨ l.ending = feed ∧ l.content.getLast? ≠ some (.char '\r'))

abbrev Inner (l : Line) : Prop := l.EndsWith [.char '\n']

abbrev Final (l : Line) : Prop := l.EndsWith []

/-- The lines of a text: a line feed ends each of them but the last. -/
inductive Reads : Text → List Line → Prop
  | last {l : Line} (ends : l.Final) : Reads l.text [l]
  | cons {l : Line} {t : Text} {ls : List Line} (ends : l.Inner) (rest : Reads t ls) :
      Reads (l.text ++ t) (l :: ls)

/-- The line that a stretch without line feeds and the feed after it make. -/
def ofStretch (feed stretch : Text) : Line :=
  if stretch.getLast? = some (.char '\r') then ⟨stretch.dropLast, .char '\r' :: feed⟩
  else ⟨stretch, feed⟩

def ofStretches : List Text → List Line
  | [] => []
  | [s] => [ofStretch [] s]
  | s :: r => ofStretch [.char '\n'] s :: ofStretches r

def read (t : Text) : List Line := ofStretches (Text.splitOn (.char '\n') t)

@[simp] theorem join_nil : join [] = [] := rfl

@[simp] theorem join_cons (l : Line) (ls : List Line) : join (l :: ls) = l.text ++ join ls := by
  simp [join]

@[simp] theorem join_append (ls ms : List Line) : join (ls ++ ms) = join ls ++ join ms := by
  simp [join]

theorem text_ofStretch (feed s : Text) : (ofStretch feed s).text = s ++ feed := by
  unfold ofStretch
  split
  · rename_i h
    obtain ⟨r, rfl⟩ := List.getLast?_eq_some_iff.mp h
    simp [text]
  · rfl

theorem endsWith_ofStretch {feed s : Text} (h : CodePoint.char '\n' ∉ s) :
    (ofStretch feed s).EndsWith feed := by
  unfold ofStretch
  split
  · exact ⟨fun hm => h (List.dropLast_subset s hm), Or.inl rfl⟩
  · rename_i hr
    exact ⟨h, Or.inr ⟨rfl, hr⟩⟩

theorem content_ofStretch (feed s : Text) :
    (ofStretch feed s).content = Document.dropReturn s := by
  have hd : Document.dropReturn s =
      if s.getLast? = some (.char '\r') then s.dropLast else s := rfl
  rw [hd, ofStretch]
  split <;> rfl

theorem EndsWith.exists_stretch {feed : Text} {l : Line} (h : l.EndsWith feed) :
    ∃ s, CodePoint.char '\n' ∉ s ∧ l = ofStretch feed s := by
  obtain ⟨c, e⟩ := l
  obtain ⟨hn, he | ⟨he, hr⟩⟩ := h
  · refine ⟨c ++ [.char '\r'], by simpa using hn, ?_⟩
    simp_all [ofStretch]
  · refine ⟨c, hn, ?_⟩
    simp_all [ofStretch]

theorem reads_ofStretches {ss : List Text} (hs : ss ≠ [])
    (hn : ∀ s ∈ ss, CodePoint.char '\n' ∉ s) :
    Reads (List.intercalate [.char '\n'] ss) (ofStretches ss) := by
  induction ss with
  | nil => exact absurd rfl hs
  | cons s ss ih =>
    have hs' := hn s List.mem_cons_self
    cases ss with
    | nil =>
      have h := Reads.last (l := ofStretch [] s) (endsWith_ofStretch hs')
      rw [text_ofStretch] at h
      simpa [List.intercalate, ofStretches] using h
    | cons r ss =>
      have hr := ih (by simp) fun x hx => hn x (List.mem_cons_of_mem s hx)
      have h := Reads.cons (l := ofStretch [.char '\n'] s) (endsWith_ofStretch hs') hr
      rw [text_ofStretch] at h
      simpa [List.intercalate, ofStretches] using h

/-- Every text has lines. -/
theorem reads_read (t : Text) : Reads t (read t) := by
  have h := reads_ofStretches (Text.splitOn_ne_nil (.char '\n') t)
    fun _ => Text.not_mem_of_mem_splitOn
  rwa [Text.intercalate_splitOn] at h

variable {t : Text} {l : Line} {ls pre post : List Line}

namespace Reads

theorem ne_nil (h : Reads t ls) : ls ≠ [] := by
  cases h <;> simp

theorem join_eq (h : Reads t ls) : join ls = t := by
  induction h with
  | last => simp
  | cons _ _ ih => rw [join_cons, ih]

theorem splitOn_eq (h : Reads t ls) : ofStretches (Text.splitOn (.char '\n') t) = ls ∧
    (Text.splitOn (.char '\n') t).map Document.dropReturn = ls.map content := by
  induction h with
  | last ends =>
    obtain ⟨s, hs, rfl⟩ := ends.exists_stretch
    rw [text_ofStretch, List.append_nil, Text.splitOn_of_not_mem hs]
    simp [ofStretches, content_ofStretch]
  | @cons l t ls ends _ ih =>
    obtain ⟨s, hs, rfl⟩ := ends.exists_stretch
    rw [text_ofStretch, List.append_assoc, List.singleton_append, Text.splitOn_append_cons hs]
    obtain ⟨r, rs, hr⟩ := List.exists_cons_of_ne_nil (Text.splitOn_ne_nil (.char '\n') t)
    rw [hr] at ih ⊢
    refine ⟨?_, ?_⟩
    · rw [ofStretches, ih.1]
      simp
    · rw [List.map_cons, ih.2, List.map_cons, content_ofStretch]

/-- A text has no other lines than those that are read. -/
theorem read_eq (h : Reads t ls) : read t = ls := h.splitOn_eq.1

theorem linesOf_eq (h : Reads t ls) : Document.linesOf t = ls.map content := h.splitOn_eq.2

theorem append (hp : ∀ k ∈ pre, k.Inner) (h : Reads t ls) :
    Reads (join pre ++ t) (pre ++ ls) := by
  induction pre with
  | nil => simpa using h
  | cons k pre ih =>
    have hr := ih fun x hx => hp x (List.mem_cons_of_mem k hx)
    rw [join_cons, List.append_assoc, List.cons_append]
    exact Reads.cons (hp k List.mem_cons_self) hr

theorem split (h : Reads t (pre ++ l :: post)) :
    (∀ k ∈ pre, k.Inner) ∧ Reads (join (l :: post)) (l :: post) := by
  induction pre generalizing t with
  | nil =>
    rw [List.nil_append] at h
    exact ⟨by simp, by rwa [h.join_eq]⟩
  | cons k pre ih =>
    rw [List.cons_append] at h
    generalize hls : pre ++ l :: post = ms at h
    cases h with
    | last => simp at hls
    | cons ends rest =>
      obtain ⟨hp, hl⟩ := ih (hls ▸ rest)
      refine ⟨?_, hl⟩
      intro x hx
      rcases List.mem_cons.mp hx with rfl | hx
      · exact ends
      · exact hp x hx

theorem final_last (h : Reads t (pre ++ [l])) : l.Final := by
  have h := h.split.2
  generalize join [l] = s at h
  cases h with
  | last ends => exact ends
  | cons _ rest => exact absurd rfl rest.ne_nil

theorem not_mem_content (h : Reads t (pre ++ l :: post)) : CodePoint.char '\n' ∉ l.content := by
  have h := h.split.2
  generalize join (l :: post) = s at h
  cases h with
  | last ends => exact ends.1
  | cons ends _ => exact ends.1

end Reads

theorem startsAfter_append_cons {s : Text} (h : CodePoint.char '\n' ∉ s) (o : Nat) (t : Text) :
    Document.startsAfter o (s ++ .char '\n' :: t) =
      (o + s.length + 1) :: Document.startsAfter (o + s.length + 1) t := by
  induction s generalizing o with
  | nil => simp [Document.startsAfter]
  | cons c s ih =>
    obtain ⟨hc, hs⟩ := List.ne_and_not_mem_of_not_mem_cons h
    rw [List.cons_append, Document.startsAfter, if_neg (Ne.symm hc), ih hs, List.length_cons]
    have : o + 1 + s.length + 1 = o + (s.length + 1) + 1 := by omega
    rw [this]

theorem startsAfter_of_not_mem {s : Text} (h : CodePoint.char '\n' ∉ s) (o : Nat) :
    Document.startsAfter o s = [] := by
  induction s generalizing o with
  | nil => rfl
  | cons c s ih =>
    obtain ⟨hc, hs⟩ := List.ne_and_not_mem_of_not_mem_cons h
    rw [Document.startsAfter, if_neg (Ne.symm hc), ih hs]

/-- Each line starts behind the lines above it and their line breaks. -/
theorem Reads.starts_eq (h : Reads t ls) (o : Nat) :
    o :: Document.startsAfter o t =
      (List.range ls.length).map fun n => o + (join (ls.take n)).length := by
  induction h generalizing o with
  | last ends =>
    obtain ⟨s, hs, rfl⟩ := ends.exists_stretch
    rw [text_ofStretch, List.append_nil, startsAfter_of_not_mem hs]
    rfl
  | cons ends rest ih =>
    obtain ⟨s, hs, rfl⟩ := ends.exists_stretch
    rw [text_ofStretch, List.append_assoc, List.singleton_append, startsAfter_append_cons hs, ih,
      List.length_cons, List.range_succ_eq_map, List.map_cons, List.map_map]
    refine congrArg (o :: ·) (List.map_congr_left fun n _ => ?_)
    simp only [Function.comp_apply, List.take_succ_cons, join_cons, text_ofStretch,
      List.length_append, List.length_singleton]
    omega

theorem Reads.getD_starts (h : Reads t (pre ++ l :: post)) (o : Nat) :
    (o :: Document.startsAfter o t).getD pre.length 0 = o + (join pre).length := by
  have hlt : pre.length < (pre ++ l :: post).length := by simp
  rw [h.starts_eq, List.getD_eq_getElem?_getD, List.getElem?_map, List.getElem?_range hlt,
    Option.map_some, Option.getD_some, List.take_left]

theorem split_of_getElem? {i : Nat} (h : ls[i]? = some l) :
    ls = ls.take i ++ l :: ls.drop (i + 1) ∧ (ls.take i).length = i := by
  obtain ⟨hi, rfl⟩ := List.getElem?_eq_some_iff.mp h
  rw [← List.drop_eq_getElem_cons hi, List.take_append_drop, List.length_take]
  exact ⟨rfl, by omega⟩

/-- A text that can stand on a line of its own, before any line break. -/
structure Plain (t : Text) : Prop where
  no_feed : CodePoint.char '\n' ∉ t
  no_return : t.getLast? ≠ some (.char '\r')

def IsBreak (e : Text) : Prop := e = [.char '\n'] ∨ e = [.char '\r', .char '\n']

theorem inner_of_plain {t e : Text} (ht : Plain t) (he : IsBreak e) : (⟨t, e⟩ : Line).Inner := by
  refine ⟨ht.no_feed, ?_⟩
  rcases he with rfl | rfl
  · exact Or.inr ⟨rfl, ht.no_return⟩
  · exact Or.inl rfl

/-- The lines of a fragment that ends with a line break. -/
def ofFragment (t : Text) : List Line := (read t).dropLast

theorem ofFragment_join (h : ∀ l ∈ ls, l.Inner) : ofFragment (join ls) = ls := by
  have hr : Reads (join ls ++ []) (ls ++ [⟨[], []⟩]) :=
    Reads.append h (Reads.last (l := ⟨[], []⟩) ⟨by simp, Or.inr ⟨rfl, by simp⟩⟩)
  rw [List.append_nil] at hr
  rw [ofFragment, hr.read_eq, List.dropLast_concat]

/-- A text of whole lines, the first of which is not empty. -/
structure IsFragment (t : Text) : Prop where
  join_eq : join (ofFragment t) = t
  inner : ∀ l ∈ ofFragment t, l.Inner
  starts : ∀ l, (ofFragment t).head? = some l → l.content ≠ []

theorem isFragment_join (hi : ∀ l ∈ ls, l.Inner) (hs : ∀ l, ls.head? = some l → l.content ≠ []) :
    IsFragment (join ls) := by
  have h := ofFragment_join hi
  exact ⟨by rw [h], by rwa [h], by rwa [h]⟩

/-- A text that is one line, with its line break and not blank. -/
def IsOneLine (t : Text) : Prop :=
  ∃ l : Line, t = l.text ∧ l.Inner ∧ ∃ c ∈ l.content, Text.isBlank c = false

theorem ofFragment_text (h : l.Inner) : ofFragment l.text = [l] := by
  have hs : ∀ k ∈ [l], k.Inner := by simpa using h
  simpa using ofFragment_join hs

theorem IsOneLine.isFragment (h : IsOneLine t) : IsFragment t := by
  obtain ⟨l, rfl, hi, c, hc, -⟩ := h
  have hs : ∀ k ∈ [l], k.Inner := by simpa using hi
  have hne : ∀ k, [l].head? = some k → k.content ≠ [] := by
    simpa using List.ne_nil_of_mem hc
  simpa using isFragment_join hs hne

theorem IsOneLine.length_ofFragment (h : IsOneLine t) : (ofFragment t).length = 1 := by
  obtain ⟨l, rfl, hi, -⟩ := h
  rw [ofFragment_text hi, List.length_singleton]

/-- The line without its leading spaces and tabs. -/
def unindented (l : Line) : Line := { l with content := l.content.dropWhile Document.isIndent }

@[simp] theorem unindented_ending (l : Line) : l.unindented.ending = l.ending := rfl

@[simp] theorem unindented_content (l : Line) :
    l.unindented.content = l.content.dropWhile Document.isIndent := rfl

end Line

namespace Document

variable {d : Document} {l : Line} {ls pre post : List Line}

theorem lines_eq (h : Line.Reads d.text ls) : d.lines = ls.map Line.content := h.linesOf_eq

theorem lineCount_eq (h : Line.Reads d.text ls) : d.lineCount = ls.length := by
  rw [lineCount, lines_eq h, List.length_map]

theorem indentOf_append_dropWhile (line : Text) :
    indentOf line ++ line.dropWhile isIndent = line := List.takeWhile_append_dropWhile

theorem isIndent_iff {c : CodePoint} : isIndent c = true ↔ c = .char ' ' ∨ c = .char '\t' := by
  simp [isIndent]

theorem isBlank_of_isIndent {c : CodePoint} (h : isIndent c = true) : Text.isBlank c = true := by
  rcases isIndent_iff.mp h with rfl | rfl <;> decide

theorem isIndent_of_mem_indentOf {line : Text} {c : CodePoint} (h : c ∈ indentOf line) :
    isIndent c = true := List.mem_takeWhile_imp h

theorem dropWhile_isIndent_append {ws : Text} (h : ∀ c ∈ ws, isIndent c = true) (line : Text) :
    (ws ++ line).dropWhile isIndent = line.dropWhile isIndent :=
  List.dropWhile_append_of_pos h

theorem indentOf_append_body {ws : Text} (h : ∀ c ∈ ws, isIndent c = true) (line : Text) :
    indentOf (ws ++ line.dropWhile isIndent) = ws := by
  have hb : (line.dropWhile isIndent).takeWhile isIndent = [] := by
    cases hl : line.dropWhile isIndent with
    | nil => rfl
    | cons c r =>
      have hc : isIndent c = false := Text.false_of_head?_dropWhile (t := line) (by simp [hl])
      simp [hc]
  rw [indentOf, List.takeWhile_append_of_pos h, hb, List.append_nil]

theorem isIndent_of_mem_unitFor {lines : List Text} {tabSize : Int} {c : CodePoint}
    (h : c ∈ unitFor lines tabSize) : isIndent c = true := by
  unfold unitFor at h
  split at h
  · rw [List.mem_singleton.mp h]
    rfl
  · rw [List.eq_of_mem_replicate h]
    rfl

theorem isBreak_eol (d : Document) : Line.IsBreak d.eol := by
  unfold eol
  split
  · exact Or.inr rfl
  · exact Or.inl rfl

theorem slice_append (x y z : Text) : slice (x ++ (y ++ z)) x.length (x.length + y.length) = y := by
  rw [slice, List.drop_left, Nat.add_sub_cancel_left, List.take_left]

theorem clampTo_inside {lines : List Text} {n c : Nat} {line : Text} (h : lines[n]? = some line)
    (hc : c ≤ line.length) : clampTo lines ⟨n, c⟩ = ⟨n, c⟩ := by
  have hn : ¬((n : Int) < 0) := by omega
  simp only [clampTo, hn, if_false, Int.toNat_natCast, h]
  congr 1
  omega

theorem clampTo_past {lines : List Text} {n : Int} {c : Int} {line : Text}
    (h : lines.getLast? = some line) (hn : (lines.length : Int) ≤ n) :
    clampTo lines ⟨n, c⟩ = ⟨lines.length - 1, line.length⟩ := by
  have h0 : ¬(n < 0) := by omega
  have hl : lines[n.toNat]? = none := List.getElem?_eq_none (by omega)
  simp only [clampTo, h0, if_false, hl, h, Option.getD_some]

/-- A position on a line lies behind the lines above. -/
theorem offsetAt_inside (h : Line.Reads d.text (pre ++ l :: post)) {c : Nat}
    (hc : c ≤ l.content.length) :
    d.offsetAt ⟨pre.length, c⟩ = (Line.join pre).length + c := by
  have hl : d.lines[pre.length]? = some l.content := by simp [lines_eq h]
  have hs := h.getD_starts 0
  rw [offsetAt, offsetWith, clampTo_inside hl hc]
  simpa [lineStarts] using hs

/-- A position below the last line counts as the end of that line. -/
theorem offsetAt_past (h : Line.Reads d.text (pre ++ [l])) {n c : Int}
    (hn : (pre.length : Int) < n) :
    d.offsetAt ⟨n, c⟩ = (Line.join pre).length + l.content.length := by
  have hl : d.lines.getLast? = some l.content := by simp [lines_eq h]
  have hlen : d.lines.length = pre.length + 1 := by simp [lines_eq h]
  have hs := h.getD_starts 0
  rw [offsetAt, offsetWith, clampTo_past hl (by omega), hlen]
  simpa [lineStarts] using hs

/-- Every position is moved to a place on a line, or to its end. -/
theorem exists_clamp_eq (d : Document) (p : Position) :
    ∃ pre l post, ∃ c : Nat, Line.Reads d.text (pre ++ l :: post) ∧ c ≤ l.content.length ∧
      d.clamp p = ⟨pre.length, c⟩ := by
  have h := Line.reads_read d.text
  obtain ⟨n, c, l, hl, hc, hq⟩ : ∃ (n c : Nat) (l : Line), (Line.read d.text)[n]? = some l ∧
      c ≤ l.content.length ∧ d.clamp p = ⟨n, c⟩ := by
    have hlast := List.getLast?_eq_some_getLast h.ne_nil
    have hlen := List.length_pos_of_ne_nil h.ne_nil
    rw [clamp, lines_eq h, clampTo]
    split
    · exact ⟨0, 0, _, List.getElem?_eq_getElem hlen, Nat.zero_le _, rfl⟩
    · split
      · rename_i line hline
        rw [List.getElem?_map, Option.map_eq_some_iff] at hline
        obtain ⟨l, hl, rfl⟩ := hline
        refine ⟨p.line.toNat, (max 0 (min p.character l.content.length)).toNat, l, hl, by omega, ?_⟩
        rw [Position.mk.injEq]
        omega
      · refine ⟨(Line.read d.text).length - 1, _, _, List.getLast?_eq_getElem? ▸ hlast,
          Nat.le_refl _, ?_⟩
        rw [List.getLast?_map, hlast, Position.mk.injEq]
        simp
        omega
  obtain ⟨hsplit, hn⟩ := Line.split_of_getElem? hl
  rw [hsplit] at h
  exact ⟨_, l, _, c, h, hc, by rw [hq, hn]⟩

theorem exists_offsetAt_eq (d : Document) (p : Position) :
    ∃ pre l post c, Line.Reads d.text (pre ++ l :: post) ∧ c ≤ l.content.length ∧
      d.offsetAt p = (Line.join pre).length + c := by
  obtain ⟨pre, l, post, c, h, hc, hq⟩ := exists_clamp_eq d p
  have hs := h.getD_starts 0
  refine ⟨pre, l, post, c, h, hc, ?_⟩
  rw [offsetAt, offsetWith, ← clamp, hq]
  simpa [lineStarts] using hs

theorem offsetAt_le_length (d : Document) (p : Position) : d.offsetAt p ≤ d.text.length := by
  obtain ⟨pre, l, post, c, h, hc, ho⟩ := exists_offsetAt_eq d p
  rw [ho, ← h.join_eq]
  simp only [Line.join_append, Line.join_cons, Line.text, List.length_append]
  omega

end Document

end CSharpActions
