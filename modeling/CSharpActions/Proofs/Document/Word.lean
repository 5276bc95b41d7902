import CSharpActions.Proofs.Document.Position
import Mathlib.Data.List.DropRight

/-!
# The word at a position

A word of a line is a run of word characters that cannot be extended. At most one word touches a
position, and that is the one which the document finds there. There is one exactly if the character
at the position, or the one before it, is a word character.
-/
namespace CSharpActions

namespace Text

/-- Between `a` and `b`, `w` is a run of word characters that cannot be extended. -/
structure IsWordIn (a w b : Text) : Prop where
  ne_nil : w ≠ []
  word : ∀ c ∈ w, isWord c = true
  left : ∀ c, a.getLast? = some c → isWord c = false
  right : ∀ c, b.head? = some c → isWord c = false

namespace IsWordIn

variable {a w b a' w' b' : Text}

theorem isWord_getElem (h : IsWordIn a w b) {i : Nat} (h₁ : a.length ≤ i)
    (h₂ : i < a.length + w.length) {c : CodePoint} (hc : (a ++ (w ++ b))[i]? = some c) :
    isWord c = true := by
  rw [List.getElem?_append_right h₁, List.getElem?_append_left (by omega)] at hc
  exact h.word c (List.mem_of_getElem? hc)

theorem not_isWord_before (h : IsWordIn a w b) {i : Nat} (hi : i + 1 = a.length) :
    ∃ c, (a ++ (w ++ b))[i]? = some c ∧ isWord c = false := by
  have hl : a.getLast? = a[i]? := by
    rw [List.getLast?_eq_getElem?]
    congr 1
    omega
  obtain ⟨c, hc⟩ : ∃ c, a[i]? = some c := ⟨_, List.getElem?_eq_getElem (by omega)⟩
  refine ⟨c, ?_, h.left c (hl.trans hc)⟩
  rw [List.getElem?_append_left (by omega), hc]

theorem length_le_of_touches (h : IsWordIn a w b) (h' : IsWordIn a' w' b')
    (he : a ++ (w ++ b) = a' ++ (w' ++ b')) {i : Int} (hi : i ≤ a.length + w.length)
    (hi' : a'.length ≤ i) : a'.length ≤ a.length := by
  by_contra hn
  obtain ⟨c, hc, hf⟩ := h'.not_isWord_before (i := a'.length - 1) (by omega)
  rw [← he] at hc
  rw [h.isWord_getElem (by omega) (by omega) hc] at hf
  exact Bool.false_ne_true hf.symm

theorem length_word_le (h : IsWordIn a w b) (h' : IsWordIn a' w' b')
    (he : a ++ (w ++ b) = a' ++ (w' ++ b')) (ha : a.length = a'.length) :
    w'.length ≤ w.length := by
  by_contra hn
  have hlen := congrArg List.length he
  simp only [List.length_append] at hlen
  obtain ⟨c, hc⟩ : ∃ c, b.head? = some c := by
    cases b with
    | nil => simp at hlen; omega
    | cons c b => exact ⟨c, rfl⟩
  have hg : (a' ++ (w' ++ b'))[a.length + w.length]? = some c := by
    rw [← he, ← List.append_assoc, ← List.length_append,
      List.getElem?_append_right (Nat.le_refl _), Nat.sub_self, ← List.head?_eq_getElem?, hc]
  have hf := h.right c hc
  rw [h'.isWord_getElem (by omega) (by omega) hg] at hf
  exact Bool.false_ne_true hf.symm

/-- Two words that touch one place are the same word. -/
theorem unique (h : IsWordIn a w b) (h' : IsWordIn a' w' b')
    (he : a ++ (w ++ b) = a' ++ (w' ++ b')) {i : Int} (hi : a.length ≤ i ∧ i ≤ a.length + w.length)
    (hi' : a'.length ≤ i ∧ i ≤ a'.length + w'.length) : a = a' ∧ w = w' := by
  have h₁ := h.length_le_of_touches h' he hi.2 hi'.1
  have h₂ := h'.length_le_of_touches h he.symm hi'.2 hi.1
  have h₃ := h.length_word_le h' he (by omega)
  have h₄ := h'.length_word_le h he.symm (by omega)
  obtain ⟨ha, hwb⟩ := List.append_inj he (by omega)
  exact ⟨ha, (List.append_inj hwb (by omega)).1⟩

variable {u r : Text} {c : CodePoint}

/-- No word begins where a run of word characters ends. -/
theorem ne_nil_of_run (hu : IsWordIn [] u (a ++ (w ++ b))) (h : IsWordIn a w b) : a ≠ [] := by
  rintro rfl
  obtain ⟨x, w, rfl⟩ := List.exists_cons_of_ne_nil h.ne_nil
  have h₁ := hu.right x rfl
  have h₂ := h.word x List.mem_cons_self
  simp [h₁] at h₂

theorem append_run (hu : IsWordIn [] u (a ++ (w ++ b))) (h : IsWordIn a w b) :
    IsWordIn (u ++ a) w b := by
  refine ⟨h.ne_nil, h.word, ?_, h.right⟩
  intro x hx
  rw [List.getLast?_append_of_ne_nil u (ne_nil_of_run hu h)] at hx
  exact h.left x hx

/-- A word behind a run of word characters has the whole run before it, or is the run. -/
theorem exists_append_of_run (hu : IsWordIn [] u r) (h : IsWordIn a w b)
    (he : u ++ r = a ++ (w ++ b)) :
    a = [] ∧ w = u ∨ ∃ a', a = u ++ a' ∧ r = a' ++ (w ++ b) ∧ IsWordIn a' w b := by
  rcases List.eq_nil_or_concat' a with rfl | ⟨a, x, rfl⟩
  · have hs := h.unique hu (he.symm : [] ++ (w ++ b) = [] ++ (u ++ r)) (i := 0)
      ⟨by simp, by simp⟩ ⟨by simp, by simp⟩
    exact Or.inl ⟨rfl, hs.2⟩
  · right
    have hx := h.left x (by simp)
    rcases List.append_eq_append_iff.mp he with ⟨a', ha, hr⟩ | ⟨u', rfl, -⟩
    · refine ⟨a', ha, hr, h.ne_nil, h.word, ?_, h.right⟩
      intro y hy
      refine h.left y ?_
      rw [ha, List.getLast?_append, hy]
      rfl
    · -- the character before the word would be one of the run
      rw [hu.word x (by simp)] at hx
      exact absurd hx (by simp)

theorem cons_iff (hc : isWord c = false) : IsWordIn (c :: a) w b ↔ IsWordIn a w b := by
  have hl : (∀ x, (c :: a).getLast? = some x → isWord x = false) ↔
      ∀ x, a.getLast? = some x → isWord x = false := by
    cases a with
    | nil => simp [hc]
    | cons y a => simp
  constructor
  · rintro ⟨h₁, h₂, h₃, h₄⟩
    exact ⟨h₁, h₂, hl.mp h₃, h₄⟩
  · rintro ⟨h₁, h₂, h₃, h₄⟩
    exact ⟨h₁, h₂, hl.mpr h₃, h₄⟩

theorem of_takeWhile (hc : isWord c = true) (r : Text) :
    IsWordIn [] (c :: r.takeWhile isWord) (r.dropWhile isWord) := by
  refine ⟨by simp, ?_, by simp, ?_⟩
  · intro x hx
    rcases List.mem_cons.mp hx with rfl | hx
    · exact hc
    · exact List.mem_takeWhile_imp hx
  · exact fun x => false_of_head?_dropWhile

end IsWordIn

/-- The spans of a text are its words. -/
theorem mem_wordSpans_iff {o : Nat} {t : Text} {s : Span} :
    s ∈ wordSpans o t ↔ ∃ a w b, t = a ++ (w ++ b) ∧ IsWordIn a w b ∧
      s = ⟨o + a.length, o + a.length + w.length⟩ := by
  fun_induction wordSpans o t with
  | case1 o =>
    constructor
    · intro h
      simp at h
    · rintro ⟨a, w, b, ht, hw, -⟩
      simp only [List.nil_eq, List.append_eq_nil_iff] at ht
      exact absurd ht.2.1 hw.ne_nil
  | case2 o c r hc n ih =>
    have hu := IsWordIn.of_takeWhile hc r
    have hr : c :: r = (c :: r.takeWhile isWord) ++ r.dropWhile isWord := by simp
    rw [List.mem_cons, ih]
    constructor
    · rintro (rfl | ⟨a, w, b, ht, hw, rfl⟩)
      · exact ⟨[], _, _, hr, hu, by simp [n]⟩
      · rw [ht] at hu hr
        refine ⟨_, w, b, by rw [hr, List.append_assoc], IsWordIn.append_run hu hw, ?_⟩
        simp only [n, List.length_append, List.length_cons, Span.mk.injEq]
        omega
    · rintro ⟨a, w, b, ht, hw, rfl⟩
      rcases IsWordIn.exists_append_of_run hu hw (hr.symm.trans ht) with
        ⟨rfl, rfl⟩ | ⟨a, rfl, ht, hw⟩
      · exact Or.inl (by simp [n])
      · refine Or.inr ⟨a, w, b, ht, hw, ?_⟩
        simp only [n, List.length_append, List.length_cons, Span.mk.injEq]
        omega
  | case3 o c r hc ih =>
    have hc : isWord c = false := by simpa using hc
    rw [ih]
    constructor
    · rintro ⟨a, w, b, rfl, hw, rfl⟩
      refine ⟨c :: a, w, b, rfl, (IsWordIn.cons_iff hc).mpr hw, ?_⟩
      simp only [List.length_cons, Span.mk.injEq]
      omega
    · rintro ⟨a, w, b, ht, hw, rfl⟩
      cases a with
      | nil =>
        obtain ⟨x, w, rfl⟩ := List.exists_cons_of_ne_nil hw.ne_nil
        obtain ⟨rfl, -⟩ : c = x ∧ r = w ++ b := by simpa using ht
        have := hw.word c List.mem_cons_self
        simp [hc] at this
      | cons x a =>
        obtain ⟨rfl, rfl⟩ : c = x ∧ r = a ++ (w ++ b) := by simpa using ht
        refine ⟨a, w, b, rfl, (IsWordIn.cons_iff hc).mp hw, ?_⟩
        simp only [List.length_cons, Span.mk.injEq]
        omega

/-- Around a word character stands the word that it belongs to. -/
theorem exists_isWordIn {t : Text} {i : Nat} {c : CodePoint} (h : t[i]? = some c)
    (hc : isWord c = true) : ∃ a w b, t = a ++ (w ++ b) ∧ IsWordIn a w b ∧
      a.length ≤ i ∧ i < a.length + w.length := by
  obtain ⟨hlt, rfl⟩ := List.getElem?_eq_some_iff.mp h
  have hright : (t.drop i).takeWhile isWord = t[i] :: (t.drop (i + 1)).takeWhile isWord := by
    rw [List.drop_eq_getElem_cons hlt, List.takeWhile_cons_of_pos hc]
  have hleft : (t.take i).rdropWhile isWord ++ (t.take i).rtakeWhile isWord = t.take i :=
    List.rdropWhile_append_rtakeWhile
  have hlen := congrArg List.length hleft
  rw [List.length_append, List.length_take, min_eq_left hlt.le] at hlen
  refine ⟨(t.take i).rdropWhile isWord,
    (t.take i).rtakeWhile isWord ++ (t.drop i).takeWhile isWord,
    (t.drop i).dropWhile isWord, ?_, ⟨by simp [hright], ?_, ?_, ?_⟩, by omega, ?_⟩
  · rw [List.append_assoc, List.takeWhile_append_dropWhile, ← List.append_assoc, hleft,
      List.take_append_drop]
  · intro x hx
    rcases List.mem_append.mp hx with hx | hx
    · exact List.mem_rtakeWhile_imp hx
    · exact List.mem_takeWhile_imp hx
  · exact fun x => false_of_getLast?_rdropWhile
  · exact fun x => false_of_head?_dropWhile
  · rw [List.length_append, hright, List.length_cons]
    omega

end Text

namespace Document

variable {d : Document} {p : Position} {r : Range}

/-- What the document finds at a position is the word that touches it. -/
theorem wordRangeAt_eq_some_iff : d.wordRangeAt p = some r ↔
    ∃ a w b, d.line? p.line = some (a ++ (w ++ b)) ∧ Text.IsWordIn a w b ∧
      (a.length ≤ p.character ∧ p.character ≤ a.length + w.length) ∧
      r = ⟨⟨p.line, a.length⟩, ⟨p.line, a.length + w.length⟩⟩ := by
  unfold wordRangeAt
  constructor
  · intro h
    obtain ⟨l, hl, h⟩ := Option.bind_eq_some_iff.mp h
    obtain ⟨s, hs, rfl⟩ := Option.map_eq_some_iff.mp h
    obtain ⟨a, w, b, rfl, hw, rfl⟩ := Text.mem_wordSpans_iff.mp (List.mem_of_find?_eq_some hs)
    have ht := List.find?_some hs
    simp only [Nat.zero_add, Bool.and_eq_true, decide_eq_true_eq] at ht
    refine ⟨a, w, b, hl, hw, ⟨ht.1, by omega⟩, ?_⟩
    simp
  · rintro ⟨a, w, b, hl, hw, hi, rfl⟩
    rw [hl, Option.bind_some]
    have hm : (⟨0 + a.length, 0 + a.length + w.length⟩ : Text.Span) ∈
        Text.wordSpans 0 (a ++ (w ++ b)) := Text.mem_wordSpans_iff.mpr ⟨a, w, b, rfl, hw, rfl⟩
    cases hf : (Text.wordSpans 0 (a ++ (w ++ b))).find? fun s =>
        s.start ≤ p.character && p.character ≤ s.stop with
    | none =>
      have := List.find?_eq_none.mp hf _ hm
      simp only [Nat.zero_add, Bool.and_eq_true, decide_eq_true_eq] at this
      exact absurd ⟨hi.1, by omega⟩ this
    | some s =>
      obtain ⟨a', w', b', he, hw', rfl⟩ := Text.mem_wordSpans_iff.mp (List.mem_of_find?_eq_some hf)
      have ht := List.find?_some hf
      simp only [Nat.zero_add, Bool.and_eq_true, decide_eq_true_eq] at ht
      obtain ⟨rfl, rfl⟩ := hw.unique hw' he hi ⟨ht.1, by omega⟩
      simp

/-- The text of a stretch of a line. -/
theorem textIn_line {pre post : List Line} {l : Line} {a w b : Text}
    (h : Line.Reads d.text (pre ++ l :: post)) (hl : l.content = a ++ (w ++ b)) :
    d.textIn ⟨⟨pre.length, a.length⟩, ⟨pre.length, a.length + w.length⟩⟩ = w := by
  have h₁ := offsetAt_inside h (c := a.length) (by simp [hl])
  have h₂ := offsetAt_inside h (c := a.length + w.length)
    (by simp only [hl, List.length_append]; omega)
  rw [Int.natCast_add] at h₂
  have ht : d.text = (Line.join pre ++ a) ++ (w ++ (b ++ (l.ending ++ Line.join post))) := by
    rw [← h.join_eq]
    simp [Line.text, hl]
  have hs := slice_append (Line.join pre ++ a) w (b ++ (l.ending ++ Line.join post))
  rw [List.length_append, Nat.add_assoc] at hs
  rw [textIn, h₁, h₂, ht, hs]

/-- The character at the position, or the one just before it, is a word character of its line. -/
def MeetsWord (d : Document) (p : Position) : Prop :=
  ∃ l, d.line? p.line = some l ∧ ∃ (i : Nat) (c : CodePoint), l[i]? = some c ∧
    Text.isWord c = true ∧ ((i : Int) = p.character ∨ (i : Int) + 1 = p.character)

theorem exists_wordRangeAt_iff : (∃ r, d.wordRangeAt p = some r) ↔ d.MeetsWord p := by
  constructor
  · rintro ⟨r, hr⟩
    obtain ⟨a, w, b, hline, hw, ⟨hstart, hstop⟩, -⟩ := wordRangeAt_eq_some_iff.mp hr
    have hpos := List.length_pos_of_ne_nil hw.ne_nil
    -- the character at the position, unless that is the end of the word
    obtain ⟨i, hi, hlow, hhigh⟩ : ∃ i : Nat,
        ((i : Int) = p.character ∨ (i : Int) + 1 = p.character) ∧
          a.length ≤ i ∧ i < a.length + w.length := by
      by_cases hend : p.character < a.length + w.length
      · exact ⟨p.character.toNat, by omega, by omega, by omega⟩
      · exact ⟨p.character.toNat - 1, by omega, by omega, by omega⟩
    have hlt : i < (a ++ (w ++ b)).length := by
      simp only [List.length_append]
      omega
    have hc := List.getElem?_eq_getElem hlt
    exact ⟨_, hline, i, _, hc, hw.isWord_getElem hlow hhigh hc, hi⟩
  · rintro ⟨line, hline, i, c, hc, hword, hi⟩
    obtain ⟨a, w, b, rfl, hw, hlow, hhigh⟩ := Text.exists_isWordIn hc hword
    exact ⟨_, wordRangeAt_eq_some_iff.mpr ⟨a, w, b, hline, hw, by omega, rfl⟩⟩

/-- A document finds a word at a position exactly if it touches one. What is found lies on the line
of the position and around it, cannot be extended, reads as the word, and is the only word of the
line that the position touches. -/
theorem wordRangeAt_finds_touched_word (d : Document) (p : Position) :
    ((∃ r, d.wordRangeAt p = some r) ↔ d.MeetsWord p) ∧
      ∀ r, d.wordRangeAt p = some r → ∃ a w b,
        d.line? p.line = some (a ++ (w ++ b)) ∧ Text.IsWordIn a w b ∧ p ∈ d.inside ∧
        r = ⟨⟨p.line, a.length⟩, ⟨p.line, a.length + w.length⟩⟩ ∧ r.start < r.stop ∧
        r.start ≤ p ∧ p ≤ r.stop ∧ d.textIn r = w ∧
        ∀ a' w' b', d.line? p.line = some (a' ++ (w' ++ b')) → Text.IsWordIn a' w' b' →
          a'.length ≤ p.character → p.character ≤ a'.length + w'.length → a' = a ∧ w' = w := by
  refine ⟨exists_wordRangeAt_iff, fun r hr => ?_⟩
  obtain ⟨a, w, b, hline, hw, htouch, rfl⟩ := wordRangeAt_eq_some_iff.mp hr
  obtain ⟨pre, l, post, hd, hn, hl⟩ := line?_eq_some hline
  have hpos := List.length_pos_of_ne_nil hw.ne_nil
  refine ⟨a, w, b, hline, hw, ⟨_, hline, by omega, ?_⟩, rfl, ?_, ?_, ?_, ?_, ?_⟩
  · simp only [List.length_append]
    omega
  · rw [Position.lt_iff]
    dsimp only
    omega
  · exact Or.inr ⟨rfl, htouch.1⟩
  · exact Or.inr ⟨rfl, htouch.2⟩
  · rw [hn]
    exact textIn_line hd hl
  · intro a' w' b' hline' hw' hlow hhigh
    have heq := Option.some.inj (hline'.symm.trans hline)
    exact hw'.unique hw heq ⟨hlow, hhigh⟩ htouch

/-- A position at the end of a word, in front of a mark. -/
theorem wordRangeAt_finds_touched_word_at_end :
    ∃ (d : Document) (p : Position) (r : Range), d.text = "int\r\n  x_1; y" ∧ p = ⟨1, 5⟩ ∧
      r = ⟨⟨1, 2⟩, ⟨1, 5⟩⟩ ∧ d.wordRangeAt p = some r ∧ d.MeetsWord p ∧
      ∃ a w b, d.line? p.line = some (a ++ (w ++ b)) ∧ Text.IsWordIn a w b ∧ d.textIn r = w := by
  obtain ⟨d, hd⟩ : ∃ d : Document, d = ⟨"int\r\n  x_1; y", none⟩ := ⟨_, rfl⟩
  have hr : d.wordRangeAt ⟨1, 5⟩ = some ⟨⟨1, 2⟩, ⟨1, 5⟩⟩ := by
    subst hd
    decide +kernel
  obtain ⟨hmeets, hfound⟩ := wordRangeAt_finds_touched_word d ⟨1, 5⟩
  obtain ⟨a, w, b, hline, hw, -, -, -, -, -, htext, -⟩ := hfound _ hr
  exact ⟨d, _, _, by rw [hd], rfl, rfl, hr, hmeets.mp ⟨_, hr⟩, a, w, b, hline, hw, htext⟩

end Document

end CSharpActions
