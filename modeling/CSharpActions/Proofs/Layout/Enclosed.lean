import CSharpActions.Proofs.Layout.Indentation
import CSharpActions.Proofs.Layout.Scanning

/-!
# Text inside of literals and comments

What stands inside of a literal or a comment has no influence on a pass: wherever the scan comes to
the opening of one, the code of the line and what the next line begins inside of are the same for
all texts inside, and so are the edits for all lines of the document.
-/
namespace CSharpActions

/-- A line may get another content that ends in the same way. -/
theorem Line.Reads.with_content {t : Text} {l : Line} {pre post : List Line}
    (h : Line.Reads t (pre ++ l :: post)) (content : Text) (hn : CodePoint.char '\n' ∉ content)
    (hl : content.getLast? = l.content.getLast?) :
    Line.Reads (Line.join (pre ++ { l with content } :: post))
      (pre ++ { l with content } :: post) := by
  have hends : ∀ feed, l.EndsWith feed → ({ l with content } : Line).EndsWith feed := by
    rintro feed ⟨-, he⟩
    exact ⟨hn, by rwa [hl]⟩
  obtain ⟨hpre, hr⟩ := h.split
  rw [Line.join_append]
  refine Line.Reads.append hpre ?_
  generalize Line.join (l :: post) = s at hr
  cases hr with
  | last ends => simpa using Line.Reads.last (hends [] ends)
  | cons ends rest =>
    rw [Line.join_cons, rest.join_eq]
    exact Line.Reads.cons (hends _ ends) rest

/-- An edit inside of a line. -/
theorem Document.applyEdits_within {d : Document} {l : Line} {pre post : List Line}
    {x y z : Text} {e : Edit} (h : Line.Reads d.text (pre ++ l :: post))
    (hl : l.content = x ++ (y ++ z))
    (he : e.range = ⟨⟨pre.length, x.length⟩, ⟨pre.length, x.length + y.length⟩⟩) :
    d.applyEdits [e] =
      .ok (Line.join (pre ++ { l with content := x ++ (e.newText ++ z) } :: post)) := by
  have hx : x.length ≤ l.content.length := by simp [hl]
  have hy : x.length + y.length ≤ l.content.length := by simp [hl]
  have h₀ := Document.offsetAt_inside h hx
  have h₁ := Document.offsetAt_inside h hy
  have hs : e.splice d = ⟨(Line.join pre ++ x).length,
      (Line.join pre ++ x).length + y.length, e.newText⟩ := by
    rw [Edit.splice, he]
    push_cast at h₁
    rw [h₀, h₁, List.length_append, Nat.add_assoc]
  have ht : d.text = (Line.join pre ++ x) ++ (y ++ (z ++ (l.ending ++ Line.join post))) := by
    rw [← h.join_eq]
    simp [Line.text, hl]
  have ho : ∀ f ∈ [e], f.Ordered d := by
    intro f hf
    rw [List.mem_singleton.mp hf, Edit.Ordered, hs]
    exact Nat.le_add_right _ _
  rw [Document.applyEdits_eq ho (by simp), List.map_singleton, List.foldr_cons, List.foldr_nil, hs,
    ht, Splice.applyTo_append]
  simp [Line.text]

namespace Layout

open Document (isIndent indentOf)

/-- What sets a stretch of a line off from its code. -/
inductive Enclosure where
  | string
  | character
  | comment
deriving DecidableEq, Repr

namespace Enclosure

def opening : Enclosure → Text
  | string => ['"']
  | character => ['\'']
  | comment => ['/', '*']

def closing : Enclosure → Text
  | string => ['"']
  | character => ['\'']
  | comment => ['*', '/']

/-- The text can stand inside: no quote of this kind and no backslash, and not the empty text
between double quotes; in a comment the closing does not come before the end. -/
def Admits : Enclosure → Text → Prop
  | string, body => body ≠ [] ∧ CodePoint.char '"' ∉ body ∧ CodePoint.char '\\' ∉ body
  | character, body => CodePoint.char '\'' ∉ body ∧ CodePoint.char '\\' ∉ body
  | comment, body => ∀ u v, body ++ comment.closing = u ++ (comment.closing ++ v) → v = []

/-- The text inside of the enclosure, and the rest of the line. -/
def around (e : Enclosure) (body rest : Text) : Text :=
  e.opening ++ (body ++ (e.closing ++ rest))

/-- What the scan gives out for the enclosure and all inside of it. -/
def trace : Enclosure → Text
  | string => ['"', '"']
  | character => ['\'', '\'']
  | comment => []

variable {e : Enclosure} {body body' rest : Text}

theorem scan_quoted_append {q : CodePoint} (hq : q ≠ .char '\\') (hbody : q ∉ body)
    (hescape : CodePoint.char '\\' ∉ body) :
    scan (.quoted q) (body ++ q :: rest) = emit [q, q] (scan (.carried .code) rest) := by
  induction body with
  | nil =>
    rw [List.nil_append, scan, if_pos rfl]
    exact fun _ _ h => absurd h hq
  | cons c body ih =>
    obtain ⟨hc, hbody⟩ := List.ne_and_not_mem_of_not_mem_cons hbody
    obtain ⟨hc', hescape⟩ := List.ne_and_not_mem_of_not_mem_cons hescape
    rw [List.cons_append, scan, if_neg (Ne.symm hc), ih hbody hescape]
    exact fun _ _ h => absurd h (Ne.symm hc')

theorem scan_block_append (h : comment.Admits body) :
    scan (.carried .block) (body ++ (comment.closing ++ rest)) = scan (.carried .code) rest := by
  induction body with
  | nil => rfl
  | cons c body ih =>
    have hrest : comment.Admits body := fun u v huv => h (c :: u) v (by simp [huv])
    rw [List.cons_append, scan, ih hrest]
    -- the comment would end before its closing
    rintro r rfl hr
    cases body with
    | nil => simp [closing] at hr
    | cons d body =>
      obtain ⟨rfl, -⟩ := List.cons_eq_cons.mp hr
      have := h [] (body ++ comment.closing) rfl
      simp [closing] at this

theorem opening_eq (e : Enclosure) :
    ∃ c z, e.opening = c :: z ∧ (c = '"' ∨ c = '\'' ∨ c = '/') := by
  cases e
  · exact ⟨_, _, rfl, by simp⟩
  · exact ⟨_, _, rfl, by simp⟩
  · exact ⟨_, _, rfl, by simp⟩

/-- The scan goes over an enclosure without regard to what stands inside. -/
theorem scan_around (h : e.Admits body) :
    scan (.carried .code) (e.around body rest) = emit e.trace (scan (.carried .code) rest) := by
  cases e with
  | string =>
    obtain ⟨hne, hquote, hescape⟩ := h
    obtain ⟨c, body, rfl⟩ := List.exists_cons_of_ne_nil hne
    have hc : c ≠ '"' := (List.ne_and_not_mem_of_not_mem_cons hquote).1.symm
    have hopen : scan (.carried .code) (string.around (c :: body) rest) =
        scan (.quoted '"') (c :: body ++ (string.closing ++ rest)) := by
      simp [around, opening, scan, hc]
    rw [hopen]
    exact scan_quoted_append (by decide) hquote hescape
  | character =>
    have hopen : scan (.carried .code) (character.around body rest) =
        scan (.quoted '\'') (body ++ (character.closing ++ rest)) := by
      simp [around, opening, scan]
    rw [hopen]
    exact scan_quoted_append (by decide) h.1 h.2
  | comment => exact scan_block_append h

theorem alike_around (h : e.Admits body) (h' : e.Admits body') :
    Alike (e.around body rest) (e.around body' rest) := by
  cases e with
  | string =>
    have hhead : ∀ {b : Text}, string.Admits b →
        (b ++ (string.closing ++ rest)).head? ≠ some (.char '"') := by
      rintro b ⟨hne, hquote, -⟩ hb
      rw [List.head?_append_of_ne_nil _ hne] at hb
      exact hquote (List.mem_of_head? hb)
    exact alike_cons (by decide) fun _ => ⟨hhead h, hhead h'⟩
  | character => exact alike_cons (by decide) fun hc => absurd hc (by decide)
  | comment => exact alike_cons (by decide) fun hc => absurd hc (by decide)

/-- What a line with an enclosure leads to does not depend on what stands inside: before the rest of
the line comes what the scan gives out up to the enclosure, and for the enclosure its trace. -/
theorem exists_stripLine_around {c : Carry} {p : Text} (h : e.Admits body)
    (hr : Reaches (.carried c, p ++ e.around body rest) (.carried .code, e.around body rest)) :
    ∃ out, ∀ body', e.Admits body' → stripLine c (p ++ e.around body' rest) =
      emit (out ++ e.trace) (scan (.carried .code) rest) := by
  have hne : e.around body rest ≠ [] := by
    obtain ⟨x, z, hx, -⟩ := e.opening_eq
    simp [around, hx]
  obtain ⟨out, ho⟩ := exists_scan_append hne hr
  refine ⟨out, fun body' h' => ?_⟩
  rw [stripLine, ho _ (alike_around h h'), scan_around h', emit_emit]

theorem stripLine_around {c : Carry} {p : Text} (h : e.Admits body) (h' : e.Admits body')
    (hr : Reaches (.carried c, p ++ e.around body rest) (.carried .code, e.around body rest)) :
    stripLine c (p ++ e.around body' rest) = stripLine c (p ++ e.around body rest) := by
  obtain ⟨out, ho⟩ := exists_stripLine_around h hr
  rw [ho body' h', ho body h]

theorem indentOf_append_around {p : Text} :
    indentOf (p ++ e.around body' rest) = indentOf (p ++ e.around body rest) := by
  obtain ⟨x, z, hx, hx'⟩ := e.opening_eq
  have hi : isIndent x = false := by
    rcases hx' with rfl | rfl | rfl <;> rfl
  simp [indentOf, around, hx, List.takeWhile_append, hi]

theorem find?_append_around {p : Text} :
    (p ++ e.around body' rest).find? (!Text.isBlank ·) =
      (p ++ e.around body rest).find? (!Text.isBlank ·) := by
  obtain ⟨x, z, hx, hx'⟩ := e.opening_eq
  have hi : Text.isBlank x = false := by
    rcases hx' with rfl | rfl | rfl <;> decide
  simp [around, hx, List.find?_append, hi]

end Enclosure

/-- A pass does not tell the lines apart if they begin inside of `c`. -/
structure Indistinct (c : Carry) (line line' : Text) : Prop where
  strip_eq : stripLine c line' = stripLine c line
  indentOf_eq : indentOf line' = indentOf line
  find?_eq : line'.find? (!Text.isBlank ·) = line.find? (!Text.isBlank ·)

namespace Indistinct

variable {s : State} {line line' : Text}

theorem fixed_eq (h : Indistinct s.carry line line') : s.fixed line' = s.fixed line := by
  have hhead : (Text.trim line').head? = (Text.trim line).head? := by
    rw [head?_trim, head?_trim, h.find?_eq]
  have hempty : (Text.trim line').isEmpty = (Text.trim line).isEmpty := by
    rw [← Bool.coe_iff_coe, List.isEmpty_iff, List.isEmpty_iff, ← List.head?_eq_none_iff,
      ← List.head?_eq_none_iff, hhead]
  rw [State.fixed, State.fixed, hhead, hempty]

theorem placeLine_eq (h : Indistinct s.carry line line') :
    s.placeLine line' = s.placeLine line := by
  simp only [State.placeLine, State.place, h.strip_eq, h.fixed_eq, h.indentOf_eq]

theorem next_eq (h : Indistinct s.carry line line') (n : Nat) : s.next n line' = s.next n line := by
  have hplace : ∀ code, s.place code line' = s.place code line := by
    intro code
    simp only [State.place, h.fixed_eq, h.indentOf_eq]
  simp only [State.next, State.nextShift, State.nextLabels, h.strip_eq, h.fixed_eq, h.indentOf_eq,
    hplace]

theorem indent_eq (h : Indistinct s.carry line line') (unit : Text) (p : Placement) :
    p.indent unit line' = p.indent unit line := by
  cases p with
  | keep => rw [Placement.indent, Placement.indent, h.indentOf_eq]
  | level n => rfl
  | column n => rfl

/-- A line may be exchanged for one that a pass does not tell apart from it. -/
theorem editsFrom_set {c : Carry} (h : Indistinct c line line') (unit : Text) {lines : List Text}
    {i : Nat} (n : Nat) (hi : lines[i]? = some line) (hc : (carries s.carry lines)[i]? = some c) :
    editsFrom unit n s (lines.set i line') = editsFrom unit n s lines := by
  induction lines generalizing s i n with
  | nil => simp at hi
  | cons l r ih =>
    cases i with
    | zero =>
      obtain rfl : l = line := Option.some.inj hi
      obtain rfl : s.carry = c := Option.some.inj hc
      simp only [List.set_cons_zero, editsFrom, h.placeLine_eq, h.next_eq, h.indent_eq, indentEdit?,
        h.indentOf_eq]
    | succ i =>
      rw [List.set_cons_succ, editsFrom, editsFrom, ih (n + 1) hi hc]

end Indistinct

theorem head?_eq_some_iff_indentOf {line : Text} {x : CodePoint} (hx : isIndent x = true) :
    line.head? = some x ↔ (indentOf line).head? = some x := by
  cases line with
  | nil => rfl
  | cons y r =>
    by_cases hy : isIndent y = true
    · simp [indentOf, hy]
    · have hne : y ≠ x := by
        rintro rfl
        exact hy hx
      simp [indentOf, hy, hne]

theorem starting_set {x : CodePoint} (hx : isIndent x = true) {line line' : Text}
    (h : indentOf line' = indentOf line) {lines : List Text} {i : Nat}
    (hi : lines[i]? = some line) : starting x (lines.set i line') = starting x lines := by
  induction lines generalizing i with
  | nil => rfl
  | cons l r ih =>
    cases i with
    | zero =>
      obtain rfl : l = line := Option.some.inj hi
      have hhead : line'.head? = some x ↔ l.head? = some x := by
        rw [head?_eq_some_iff_indentOf hx, h, ← head?_eq_some_iff_indentOf hx]
      simp only [starting, List.set_cons_zero, List.countP_cons, hhead]
    | succ i =>
      have ih := ih hi
      simp only [starting] at ih
      simp only [starting, List.set_cons_succ, List.countP_cons, ih]

/-- A document may get a line that a pass does not tell apart from its own. -/
theorem format_eq_of_lines_eq_set {d d' : Document} {i : Nat} {c : Carry} {line line' : Text}
    (h : Indistinct c line line') (hi : d.lines[i]? = some line)
    (hc : (carries .code d.lines)[i]? = some c) (hd : d'.lines = d.lines.set i line')
    (tabSize : Int) : format d' tabSize = format d tabSize := by
  have hvote : Document.prefersTabs d'.lines = Document.prefersTabs d.lines := by
    rw [Bool.eq_iff_iff, prefersTabs_iff, prefersTabs_iff, hd, starting_set rfl h.indentOf_eq hi,
      starting_set rfl h.indentOf_eq hi]
  have hunit : d'.indentUnit tabSize = d.indentUnit tabSize := by
    rw [Document.indentUnit, Document.indentUnit, Document.unitFor, Document.unitFor, hvote]
  rw [format_eq_editsFrom, format_eq_editsFrom, hunit, hd]
  exact h.editsFrom_set (d.indentUnit tabSize) 0 hi hc

namespace Enclosure

variable {e : Enclosure} {body body' p q : Text}

theorem indistinct_around {c : Carry} (h : e.Admits body) (h' : e.Admits body')
    (hr : Reaches (.carried c, p ++ e.around body q) (.carried .code, e.around body q)) :
    Indistinct c (p ++ e.around body q) (p ++ e.around body' q) :=
  ⟨stripLine_around h h' hr, indentOf_append_around, find?_append_around⟩

theorem not_mem_append_around {x : CodePoint} (h : x ∉ p ++ e.around body q) (hx : x ∉ body') :
    x ∉ p ++ e.around body' q := by
  simp only [around, List.mem_append, not_or] at h ⊢
  exact ⟨h.1, h.2.1, hx, h.2.2.2⟩

theorem getLast?_append_around :
    (p ++ e.around body' q).getLast? = (p ++ e.around body q).getLast? := by
  cases e <;> simp [around, closing, List.getLast?_append, List.getLast?_cons]

/-- The edit that puts another text inside of an enclosure on line `n` behind `p`. -/
def replacement (e : Enclosure) (n : Nat) (p body body' : Text) : Edit :=
  let start := p.length + e.opening.length
  ⟨⟨⟨n, start⟩, ⟨n, start + body.length⟩⟩, body'⟩

/-- The edit is accepted and gives the line the other text. -/
theorem applyEdits_replacement {d : Document} {n : Nat}
    (hl : d.lines[n]? = some (p ++ e.around body q)) (hn : CodePoint.char '\n' ∉ body') :
    ∃ t, d.applyEdits [e.replacement n p body body'] = .ok t ∧
      (d.withText t).lines = d.lines.set n (p ++ e.around body' q) := by
  have hread := Line.reads_read d.text
  rw [Document.lines_eq hread, List.getElem?_map, Option.map_eq_some_iff] at hl
  obtain ⟨l, hl, hcontent⟩ := hl
  obtain ⟨hsplit, hpre⟩ := Line.split_of_getElem? hl
  generalize (Line.read d.text).take n = pre at hsplit hpre
  generalize (Line.read d.text).drop (n + 1) = post at hsplit
  subst hpre
  have hr : Line.Reads d.text (pre ++ l :: post) := hsplit ▸ hread
  have hr' := hr.with_content (p ++ e.around body' q)
    (not_mem_append_around (hcontent ▸ hr.not_mem_content) hn)
    (by rw [hcontent, getLast?_append_around])
  have ha := Document.applyEdits_within (e := e.replacement pre.length p body body')
    (x := p ++ e.opening) (y := body) (z := e.closing ++ q) hr (by simp [hcontent, around])
    (by simp [replacement])
  refine ⟨_, ha, ?_⟩
  have haround : p ++ e.opening ++ (body' ++ (e.closing ++ q)) = p ++ e.around body' q := by
    rw [around, List.append_assoc]
  rw [replacement, haround, Document.lines_eq hr]
  refine (hr'.linesOf_eq : (d.withText _).lines = _).trans ?_
  simp

end Enclosure

/-- What stands inside of a literal or of a comment has no influence on the code of its line, on
what the next line begins inside of, or on the edits of a pass over the document. For a literal an
empty pair of quotes is left, for a comment nothing, and behind either the line goes on in code. -/
theorem enclosed_text_isIrrelevant {e : Enclosure} {p body body' q : Text} {c : Carry}
    (h : e.Admits body) (h' : e.Admits body')
    (hr : Reaches (.carried c, p ++ e.around body q) (.carried .code, e.around body q)) :
    stripLine c (p ++ e.around body' q) = stripLine c (p ++ e.around body q) ∧
      (∃ out, ∀ body', e.Admits body' → stripLine c (p ++ e.around body' q) =
        emit (out ++ e.trace) (scan (.carried .code) q)) ∧
      ∀ (d : Document) (n : Nat), d.lines[n]? = some (p ++ e.around body q) →
        (carries .code d.lines)[n]? = some c → CodePoint.char '\n' ∉ body' →
        ∃ t, d.applyEdits [e.replacement n p body body'] = .ok t ∧
          (d.withText t).lines = d.lines.set n (p ++ e.around body' q) ∧
          ∀ tabSize : Int, 1 ≤ tabSize →
            ∃ edits, format d tabSize = .ok edits ∧ format (d.withText t) tabSize = .ok edits := by
  have hline := Enclosure.indistinct_around h h' hr
  refine ⟨hline.strip_eq, Enclosure.exists_stripLine_around h hr, fun d n hl hc hn => ?_⟩
  obtain ⟨t, ha, hd⟩ := Enclosure.applyEdits_replacement hl hn
  refine ⟨t, ha, hd, fun tabSize hk => ⟨_, format_eq hk, ?_⟩⟩
  rw [format_eq_of_lines_eq_set hline hl hc hd, format_eq hk]

/-- The opening of a comment and a brace may stand in the argument of a call. -/
theorem enclosed_text_isIrrelevant_in_argument :
    Enclosure.string.Admits "a" ∧ Enclosure.string.Admits "/*\x7b" ∧
      Reaches (.carried .code, "f(".text ++ Enclosure.string.around "a" ");")
        (.carried .code, Enclosure.string.around "a" ");") ∧
      stripLine .code ("f(".text ++ Enclosure.string.around "/*\x7b" ");") =
        stripLine .code ("f(".text ++ Enclosure.string.around "a" ");") ∧
      ∃ t, ({ text := "\x7b\nf(\"a\");\n\x7d" } : Document).applyEdits
          [Enclosure.string.replacement 1 "f(" "a" "/*\x7b"] = .ok t ∧
        Document.linesOf t = (Document.linesOf "\x7b\nf(\"a\");\n\x7d").set 1
          ("f(".text ++ Enclosure.string.around "/*\x7b" ");") ∧
        ∀ tabSize : Int, 1 ≤ tabSize → ∃ edits,
          format { text := "\x7b\nf(\"a\");\n\x7d" } tabSize = .ok edits ∧
            format { text := t } tabSize = .ok edits := by
  have h : Enclosure.string.Admits "a" := ⟨by decide, by decide, by decide⟩
  have h' : Enclosure.string.Admits "/*\x7b" := ⟨by decide, by decide, by decide⟩
  have hr : Reaches (.carried .code, "f(".text ++ Enclosure.string.around "a" ");")
      (.carried .code, Enclosure.string.around "a" ");") :=
    .head ⟨by decide, rfl⟩ (.head ⟨by decide, rfl⟩ .refl)
  obtain ⟨hstrip, -, hdocument⟩ := enclosed_text_isIrrelevant h h' hr
  exact ⟨h, h', hr, hstrip, hdocument { text := "\x7b\nf(\"a\");\n\x7d" } 1 (by decide)
    (by decide) (by decide)⟩

end Layout

end CSharpActions
