import CSharpActions.Proofs.Action.Surroundings
import CSharpActions.Proofs.Declaration.Parameter

/-!
# Which parameter is selected

The word at a position is looked up by its spelling among the parameters of the first signature
around it. Where the word stands does not matter: it can be one of the body, or the name of a
parameter of another signature. Only if there is no second such word around the position, the word
is the name that is found.
-/
namespace CSharpActions

theorem Text.IsWordIn.cut {u w v : Text} (h : IsWordIn u w v) (i k : Nat) :
    IsWordIn (u.drop i) w (v.take k) := by
  refine ⟨h.ne_nil, h.word, ?_, ?_⟩
  · intro c hc
    rw [List.getLast?_drop] at hc
    split at hc
    · simp at hc
    · exact h.left c hc
  · intro c hc
    rw [List.head?_take] at hc
    split at hc
    · simp at hc
    · exact h.right c hc

/-- A word of a line is a word of the text. -/
theorem Line.Reads.isWordIn {t a w b : Text} {pre post : List Line} {l : Line}
    (h : Reads t (pre ++ l :: post)) (hw : Text.IsWordIn a w b) :
    Text.IsWordIn (join pre ++ a) w (b ++ (l.ending ++ join post)) := by
  refine ⟨hw.ne_nil, hw.word, ?_, ?_⟩
  · intro c hc
    rw [List.getLast?_append] at hc
    cases ha : a.getLast? with
    | some x =>
      rw [ha] at hc
      exact hw.left c (ha.trans hc)
    | none =>
      rw [ha, Option.none_or] at hc
      by_cases hp : pre = []
      · simp [hp] at hc
      · obtain ⟨r, hr⟩ := exists_join_feed hp h.split.1
        rw [hr, List.getLast?_concat] at hc
        rw [← Option.some.inj hc]
        decide +kernel
  · intro c hc
    rw [List.head?_append] at hc
    cases hb : b.head? with
    | some x =>
      rw [hb] at hc
      exact hw.right c (hb.trans hc)
    | none =>
      rw [hb, Option.none_or, List.head?_append] at hc
      cases he : l.ending.head? with
      | some x =>
        rw [he] at hc
        exact Text.isWord_of_isBlank
          (h.isBlank_of_mem_ending c (List.mem_of_head? (he.trans hc)))
      | none =>
        -- only the last line has no ending
        rw [he, Option.none_or] at hc
        cases post with
        | nil => simp at hc
        | cons k post =>
          rw [List.append_cons] at h
          obtain ⟨x, hx⟩ := (h.split.1 l (by simp)).exists_feed
          have hcontent := (h.split.1 l (by simp)).1
          rw [text, List.head?_eq_none_iff.mp he, List.append_nil] at hx
          exact absurd (by simp [hx]) hcontent

theorem Signature.Whole.exists_head {t m n ps : Text} (h : Whole t m n ps) :
    ∃ head, t = head ++ .char '(' :: (ps ++ [.char ')']) ∧ CodePoint.char '(' ∉ head ∧
      CodePoint.char ')' ∉ ps := by
  obtain ⟨name, ⟨hm, hopen, -, c, hc, rfl⟩, hclose, -⟩ := h
  refine ⟨m ++ c :: name, by simp, ?_, hclose⟩
  rw [List.mem_append, List.mem_cons, not_or, not_or]
  refine ⟨not_mem_modifier hm (by decide +kernel), ?_, hopen⟩
  rintro rfl
  exact absurd hc (by decide)

namespace Document

open Signature (Whole)
open Parameter (IsFirst)

variable {d : Document} {p : Position} {s : Settings} {u w v : Text}

/-- A whole word of the text in the lines in which a signature is searched around a position. -/
structure Around (d : Document) (p : Position) (u w v : Text) : Prop where
  text_eq : u ++ (w ++ v) = d.text
  word : Text.IsWordIn u w v
  below_start : d.offsetAt ⟨windowStart p, 0⟩ ≤ u.length
  above_stop : u.length + w.length ≤ d.offsetAt ⟨p.line + signatureWindow, 0⟩

/-- How often a word stands in the lines around a position in which a signature is searched. -/
def occurrences (d : Document) (p : Position) (w : Text) : Nat :=
  (Text.wordSpans 0 (d.window p)).countP fun s => slice (d.window p) s.start s.stop = w

/-- Among the parameters of the signature that the actions at a position go by, the given one is the
first of its name, and its name stands there as a whole word at the given offset. -/
def DeclaredAt (d : Document) (p : Position) (q : Parameter) (o : Nat) : Prop :=
  ∃ before head x y after,
    d.Matches p before (head ++ .char '(' :: (x ++ (q.name ++ (y ++ [.char ')'])))) after ∧
    CodePoint.char '(' ∉ head ∧ CodePoint.char ')' ∉ x ++ (q.name ++ y) ∧
    IsFirst (x ++ (q.name ++ y)) q x y ∧
    Text.IsWordIn (before ++ (head ++ .char '(' :: x)) q.name (y ++ .char ')' :: after) ∧
    o = (before ++ (head ++ .char '(' :: x)).length

/-- The text around a position, cut at a word of it. -/
theorem Around.exists_window_eq (h : d.Around p u w v) :
    ∃ k, d.window p = u.drop (d.offsetAt ⟨windowStart p, 0⟩) ++ (w ++ v.take k) := by
  obtain ⟨htext, -, hstart, hstop⟩ := h
  refine ⟨d.offsetAt ⟨p.line + signatureWindow, 0⟩ - (u.length + w.length), ?_⟩
  rw [window, textIn, slice, ← htext, List.drop_append_of_le_length hstart, List.take_append,
    List.take_of_length_le (by rw [List.length_drop]; dsimp only; omega), List.take_append,
    List.take_of_length_le (by rw [List.length_drop]; dsimp only; omega), List.length_drop]
  congr 3
  dsimp only
  omega

theorem Around.mem_wordSpans (h : d.Around p u w v) :
    (⟨u.length - d.offsetAt ⟨windowStart p, 0⟩,
        u.length - d.offsetAt ⟨windowStart p, 0⟩ + w.length⟩ : Text.Span) ∈
      (Text.wordSpans 0 (d.window p)).filter
        fun s => slice (d.window p) s.start s.stop = w := by
  obtain ⟨k, hk⟩ := h.exists_window_eq
  rw [hk, ← List.length_drop]
  refine List.mem_filter.mpr ⟨Text.mem_wordSpans_iff.mpr ⟨_, w, _, rfl, h.word.cut _ k, ?_⟩, ?_⟩
  · rw [Nat.zero_add]
  · exact decide_eq_true (slice_append _ w _)

/-- A word that stands once around a position stands in one place there. -/
theorem Around.length_eq {u' v' : Text} (h : d.Around p u w v) (h' : d.Around p u' w v')
    (hone : d.occurrences p w = 1) : u.length = u'.length := by
  have hm := h.mem_wordSpans
  have hm' := h'.mem_wordSpans
  rw [occurrences, List.countP_eq_length_filter, List.length_eq_one_iff] at hone
  obtain ⟨x, hx⟩ := hone
  rw [hx, List.mem_singleton] at hm hm'
  have hspan := hm.trans hm'.symm
  have hstart := h.below_start
  have hstart' := h'.below_start
  rw [Text.Span.mk.injEq] at hspan
  omega

/-- The word at a position. -/
theorem exists_around {selected : Selected} (h : d.selectedParameter p = some selected) :
    ∃ r u v, d.wordRangeAt p = some r ∧ d.textIn r = selected.name ∧
      d.Around p u selected.name v ∧ d.offsetAt r.start = u.length ∧
      d.offsetAt r.stop = u.length + selected.name.length := by
  obtain ⟨pre, l, post, a, b, -, hd, hp, hl, hw, hc, -⟩ := exists_of_selectedParameter h
  have hlen : l.content.length = a.length + (selected.name.length + b.length) := by
    rw [hl, List.length_append, List.length_append]
  have hr : d.wordRangeAt p =
      some ⟨⟨p.line, a.length⟩, ⟨p.line, a.length + selected.name.length⟩⟩ :=
    wordRangeAt_eq_some_iff.mpr ⟨a, _, b, hl ▸ line?_of_reads hd hp, hw, hc, rfl⟩
  have hstart := offsetAt_inside hd (c := a.length) (by omega)
  have hstop := offsetAt_inside hd (c := a.length + selected.name.length) (by omega)
  have hwindow := offsetAt_windowStart hd hp
  have hbelow := length_le_offsetAt_window hd
  rw [Int.natCast_add] at hstop
  refine ⟨_, Line.join pre ++ a, b ++ (l.ending ++ Line.join post), hr, ?_,
    ⟨?_, hd.isWordIn hw, ?_, ?_⟩, ?_, ?_⟩
  · rw [hp]
    exact textIn_line hd hl
  · rw [← hd.join_eq, Line.join_append, Line.join_cons, Line.text, hl]
    simp only [List.append_assoc]
  · rw [List.length_append]
    omega
  · rw [List.length_append, hp, signatureWindow]
    omega
  · rw [List.length_append, ← hstart, hp]
  · rw [List.length_append, Nat.add_assoc, ← hstop, hp]

/-- The name that is found for the word at a position. -/
theorem exists_declaredAt {selected : Selected} (h : d.selectedParameter p = some selected) :
    ∃ u v, d.Around p u selected.name v ∧
      d.DeclaredAt p ⟨selected.type, selected.name⟩ u.length := by
  obtain ⟨-, -, -, _, _, found, -, -, -, hword, -, hfound, htype⟩ := exists_of_selectedParameter h
  obtain ⟨before, sig, after, hm, hle, -⟩ := exists_matches hfound
  obtain ⟨found', hfound', hbefore, hwhole⟩ := hm.found
  obtain rfl := Option.some.inj (hfound.symm.trans hfound')
  obtain ⟨head, hsig, hopen, hclose⟩ := hwhole.exists_head
  obtain ⟨x, y, hfirst⟩ := Parameter.typeOf?_eq_some_iff.mp htype
  have hraw : found.parameters = x ++ (selected.name ++ y) := hfirst.raw_eq
  rw [hraw] at hclose hfirst
  obtain rfl : sig = head ++ .char '(' :: (x ++ (selected.name ++ (y ++ [.char ')']))) := by
    rw [hsig, hraw]
    simp only [List.append_assoc]
  have hw : Text.IsWordIn (before ++ (head ++ .char '(' :: x)) selected.name
      (y ++ .char ')' :: after) := by
    have hright : ∀ c, (CodePoint.char ')' :: after).head? = some c → Text.isWord c = false := by
      intro c hc
      rw [← Option.some.inj (hc : some (.char ')') = some c)]
      decide +kernel
    have hw := hfirst.isWordIn hword.ne_nil hword.word hright (before ++ (head ++ [.char '(']))
    simpa using hw
  refine ⟨_, _, ⟨?_, hw, ?_, ?_⟩, before, head, x, y, after, hm, hopen, hclose, hfirst, hw, rfl⟩
  · rw [← hm.text_eq]
    simp
  · rw [List.length_append]
    omega
  · refine le_trans ?_ hle
    simp only [List.length_append, List.length_cons]
    omega

/-- For every member action that is offered: the word at the position is spelled like a parameter
of the signature that is found, and the type is the one written there before the first name of this
spelling. The name stands between the parentheses as a whole word. If the word is the only one of
its spelling around the position, it is that name. -/
theorem offered_parameter {a : Action} (h : a ∈ d.memberActions p s) :
    ∃ plan r o, a.plan = .member plan ∧ d.wordRangeAt p = some r ∧
      d.textIn r = plan.parameterName ∧
      d.DeclaredAt p ⟨plan.parameterType, plan.parameterName⟩ o ∧
      (d.occurrences p plan.parameterName = 1 →
        d.offsetAt r.start = o ∧ d.offsetAt r.stop = o + plan.parameterName.length) := by
  obtain ⟨selected, body, kind, hs, -, rfl⟩ := mem_memberActions h
  obtain ⟨r, u, v, hr, htext, hword, hstart, hstop⟩ := exists_around hs
  obtain ⟨u', v', hname, hdecl⟩ := exists_declaredAt hs
  refine ⟨_, r, _, rfl, hr, htext, hdecl, fun hone => ?_⟩
  have heq := hword.length_eq hname hone
  exact ⟨hstart.trans heq, by rw [hstop, heq]; rfl⟩

theorem offered_parameter_once :
    ∃ (d : Document) (p : Position) (a : Action), p = ⟨2, 17⟩ ∧
      d.text = "public class A\n\x7b\n    public A(int x)\n    \x7b\n    \x7d\n\x7d\n" ∧
      a ∈ d.memberActions p {} ∧ d.occurrences p "x" = 1 ∧
      ∃ plan r o, a.plan = .member plan ∧ d.wordRangeAt p = some r ∧
        d.textIn r = plan.parameterName ∧
        d.DeclaredAt p ⟨plan.parameterType, plan.parameterName⟩ o ∧
        (d.occurrences p plan.parameterName = 1 →
          d.offsetAt r.start = o ∧ d.offsetAt r.stop = o + plan.parameterName.length) := by
  have hne : (Document.mk "public class A\n\x7b\n    public A(int x)\n    \x7b\n    \x7d\n\x7d\n"
      none).memberActions ⟨2, 17⟩ {} ≠ [] := by
    decide +kernel
  obtain ⟨a, ha⟩ := List.exists_mem_of_ne_nil _ hne
  exact ⟨_, _, a, rfl, rfl, ha, by decide +kernel, offered_parameter ha⟩

/-- Two words that are no names of the parameter found: one in the body, and the name of a parameter
of another type in the next signature. -/
theorem parameter_of_other_occurrence :
    (∃ (d : Document) (p : Position) (a : Action) (plan : MemberPlan) (before sig after : Text)
        (r : Range), p = ⟨3, 10⟩ ∧ before = "public class A\n\x7b\n    " ∧ sig = "public A(int x)" ∧
      after = "\n    \x7b y = x; \x7d\n\x7d\n" ∧ d.Matches p before sig after ∧
      a ∈ d.memberActions p {} ∧ a.plan = .member plan ∧ d.wordRangeAt p = some r ∧
      (before ++ sig).length < d.offsetAt r.start) ∧
    ∃ (d : Document) (p : Position) (a : Action) (plan : MemberPlan) (before sig after : Text)
        (r : Range), p = ⟨3, 20⟩ ∧ before = "class A\n\x7b\n    " ∧ sig = "public A(int x)" ∧
      after = " \x7b \x7d\n    public A(string x) \x7b \x7d\n\x7d\n" ∧
      d.Matches p before sig after ∧
      a ∈ d.memberActions p {} ∧ a.plan = .member plan ∧ d.wordRangeAt p = some r ∧
      (before ++ sig).length < d.offsetAt r.start ∧
      d.textIn ⟨⟨3, 13⟩, r.stop⟩ = "string x" ∧ plan.parameterType = "int" := by
  refine ⟨?_, ?_⟩
  · have hne : (Document.mk ("public class A\n\x7b\n    " ++ ("public A(int x)" ++
        "\n    \x7b y = x; \x7d\n\x7d\n")) none).memberActions ⟨3, 10⟩ {} ≠ [] := by
      decide +kernel
    have hwhole : Whole "public A(int x)" "public" "A" "int x" :=
      Signature.whole_of_word? "public" "A" "int x" (by decide)
    obtain ⟨a, ha⟩ := List.exists_mem_of_ne_nil _ hne
    obtain ⟨selected, body, kind, -, -, rfl⟩ := mem_memberActions ha
    refine ⟨_, _, _, _, _, _, _, ⟨⟨3, 10⟩, ⟨3, 11⟩⟩, rfl, rfl, rfl, rfl,
      ⟨rfl, ⟨"public", "A", "int x", 6⟩, ?_, ?_, hwhole⟩, ha, rfl, ?_, ?_⟩ <;>
      decide +kernel
  · have hne : (Document.mk ("class A\n\x7b\n    " ++ ("public A(int x)" ++
        " \x7b \x7d\n    public A(string x) \x7b \x7d\n\x7d\n")) none).memberActions ⟨3, 20⟩ {} ≠
        [] := by
      decide +kernel
    have hwhole : Whole "public A(int x)" "public" "A" "int x" :=
      Signature.whole_of_word? "public" "A" "int x" (by decide)
    obtain ⟨a, ha⟩ := List.exists_mem_of_ne_nil _ hne
    obtain ⟨selected, body, kind, hs, -, rfl⟩ := mem_memberActions ha
    obtain rfl : selected = ⟨"int", "x", 2⟩ := by
      apply Option.some.inj
      rw [← hs]
      decide +kernel
    refine ⟨_, _, _, _, _, _, _, ⟨⟨3, 20⟩, ⟨3, 21⟩⟩, rfl, rfl, rfl, rfl,
      ⟨rfl, ⟨"public", "A", "int x", 6⟩, ?_, ?_, hwhole⟩, ha, rfl, ?_, ?_, ?_, rfl⟩ <;>
      decide +kernel

end Document

end CSharpActions
