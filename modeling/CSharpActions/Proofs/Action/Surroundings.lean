import CSharpActions.Proofs.Action.Window
import CSharpActions.Proofs.Document.Offset

/-!
# Where members go

A member is declared at the blank line nearest above the cursor, and assigned below the first line
with an opening brace at or below the cursor. Neither search looks at the signature or at the nesting
of braces. Line numbers alone decide whether the declaration comes in front of the signature and the
assignment behind its closing parenthesis.
-/
namespace CSharpActions

/-- Equally many braces open and close, and no beginning closes more of them than it opens. -/
def Text.Balanced (t : Text) : Prop :=
  t.count (.char '{') = t.count (.char '}') ∧
    ∀ n, (t.take n).count (.char '}') ≤ (t.take n).count (.char '{')

theorem Text.balanced_nil : Text.Balanced [] := ⟨rfl, fun n => by simp⟩

/-- A text without braces in front does not matter. -/
theorem Text.balanced_append_iff {u : Text} (h₁ : CodePoint.char '{' ∉ u)
    (h₂ : CodePoint.char '}' ∉ u) (v : Text) : (u ++ v).Balanced ↔ v.Balanced := by
  have hopen : ∀ w, w ⊆ u → List.count (CodePoint.char '{') w = 0 :=
    fun w hw => List.count_eq_zero.mpr fun hc => h₁ (hw hc)
  have hclose : ∀ w, w ⊆ u → List.count (CodePoint.char '}') w = 0 :=
    fun w hw => List.count_eq_zero.mpr fun hc => h₂ (hw hc)
  have hu := List.Subset.refl u
  unfold Balanced
  rw [List.count_append, List.count_append, hopen u hu, hclose u hu, Nat.zero_add, Nat.zero_add]
  refine and_congr_right fun _ => ⟨fun h n => ?_, fun h n => ?_⟩
  · have hn := h (u.length + n)
    rwa [List.take_length_add_append, List.count_append, List.count_append, hopen u hu, hclose u hu,
      Nat.zero_add, Nat.zero_add] at hn
  · rw [List.take_append, List.count_append, List.count_append, hopen _ (List.take_subset n u),
      hclose _ (List.take_subset n u), Nat.zero_add, Nat.zero_add]
    exact h _

theorem Signature.whole_of_word? (m n ps : Text)
    (h : (PropertyDecl.modifiers.findSome? fun w => word? w m) = some (m, []) ∧
      CodePoint.char '(' ∉ n ∧ CodePoint.char '\n' ∉ n ∧ CodePoint.char ')' ∉ ps) :
    Whole (m ++ .char ' ' :: (n ++ .char '(' :: (ps ++ [.char ')']))) m (Text.trim n) ps := by
  obtain ⟨hm, hopen, hfeed, hclose⟩ := h
  exact ⟨n, ⟨(findSome?_word?_eq_some_iff.mp hm).2, hopen, hfeed, _, by decide, rfl⟩, hclose, rfl⟩

namespace Document

open Signature (Whole)

variable {d : Document} {p : Position} {s : Settings}

/-! ## The signature -/

/-- The signature that the actions at a position go by, with what stands before and behind it. -/
structure Matches (d : Document) (p : Position) (before sig after : Text) : Prop where
  text_eq : before ++ (sig ++ after) = d.text
  found : ∃ found, Signature.find? (d.window p) = some found ∧
    before.length = d.offsetAt ⟨windowStart p, 0⟩ + found.offset ∧
    Whole sig found.modifier found.name found.parameters

theorem exists_matches {found : Signature} (h : Signature.find? (d.window p) = some found) :
    ∃ before sig after, d.Matches p before sig after ∧
      (before ++ sig).length ≤ d.offsetAt ⟨p.line + signatureWindow, 0⟩ ∧
      before = d.text.take (d.offsetAt ⟨windowStart p, 0⟩) ++ (d.window p).take found.offset := by
  obtain ⟨⟨i, m, x, ps⟩, hleft, rfl⟩ := Option.map_eq_some_iff.mp h
  obtain ⟨hi, hhead, -⟩ := Text.leftmost?_eq_some hleft
  obtain ⟨sig, y, hsig, hwhole⟩ := Signature.exists_whole_of_head? hhead
  dsimp only at hi hsig ⊢
  -- the window is a part of the text, and the signature one of the window
  have hwindow : d.window p <+: d.text.drop (d.offsetAt ⟨windowStart p, 0⟩) := List.take_prefix _ _
  obtain ⟨r, hr⟩ := hwindow
  have htext : d.text.take (d.offsetAt ⟨windowStart p, 0⟩) ++ (d.window p).take i ++
      (sig ++ (y ++ r)) = d.text := by
    rw [List.append_assoc, ← List.append_assoc sig, ← List.append_assoc (List.take i _), ← hsig,
      List.take_append_drop, hr, List.take_append_drop]
  have hlen : i + (sig.length + y.length) ≤
      d.offsetAt ⟨p.line + signatureWindow, 0⟩ - d.offsetAt ⟨windowStart p, 0⟩ := by
    have hle : (d.window p).length ≤
        d.offsetAt ⟨p.line + signatureWindow, 0⟩ - d.offsetAt ⟨windowStart p, 0⟩ :=
      List.length_take_le _ _
    have hcut := congrArg List.length hsig
    rw [List.length_drop, List.length_append] at hcut
    omega
  have hpos : 0 < sig.length := by
    obtain ⟨u, hu⟩ := hwhole.exists_paren
    have hu := congrArg List.length (hu [])
    rw [List.append_nil, List.length_append, List.length_cons] at hu
    omega
  have hbefore : (d.text.take (d.offsetAt ⟨windowStart p, 0⟩) ++ (d.window p).take i).length =
      d.offsetAt ⟨windowStart p, 0⟩ + i := by
    rw [List.length_append, List.length_take, List.length_take, min_eq_left hi,
      min_eq_left (offsetAt_le_length d _)]
  refine ⟨_, sig, y ++ r, ⟨htext, _, h, hbefore, hwhole⟩, ?_, rfl⟩
  rw [List.length_append, hbefore]
  omega

variable {before sig after : Text}

/-- A signature ends with a parenthesis. -/
theorem Matches.exists_close (h : d.Matches p before sig after) :
    ∃ t, sig = t ++ [.char ')'] := by
  obtain ⟨-, -, -, -, n, ⟨-, -, -, c, -, rfl⟩, -⟩ := h
  exact ⟨_, by rw [← List.cons_append, ← List.append_assoc, ← List.cons_append, ← List.append_assoc]⟩

theorem windowStart_lt {ls : List Line} {n : Nat} (hp : p.line = n) (hn : n < ls.length) :
    windowStart p < ls.length := by
  rw [windowStart, hp, signatureWindow]
  omega

/-- The signature of a selected parameter starts on the line that is given with it. -/
theorem exists_matches_of_selectedParameter {selected : Selected}
    (h : d.selectedParameter p = some selected) :
    ∃ before sig after, d.Matches p before sig after ∧
      selected.signatureLine = before.count (.char '\n') := by
  obtain ⟨pre, l, post, -, -, -, hd, hp, -⟩ := exists_of_selectedParameter h
  obtain ⟨r, -, h⟩ := Option.bind_eq_some_iff.mp h
  obtain ⟨found, hfound, h⟩ := Option.bind_eq_some_iff.mp h
  obtain ⟨type, -, rfl⟩ := Option.map_eq_some_iff.mp h
  obtain ⟨before, sig, after, hmatches, -, hbefore⟩ := exists_matches hfound
  refine ⟨before, sig, after, hmatches, ?_⟩
  rw [hbefore, List.count_append, count_feed_take hd (windowStart_lt hp (by simp))]

/-- A line starts in front of the signature, or at it, exactly if it is not below its first line. -/
theorem Matches.offsetAt_le_iff {ls : List Line} {n : Nat} (h : d.Matches p before sig after)
    (hd : Line.Reads d.text ls) (hn : n < ls.length) :
    d.offsetAt ⟨n, 0⟩ ≤ before.length ↔ n ≤ before.count (.char '\n') := by
  rw [Document.offsetAt_le_iff hd hn, ← h.text_eq, List.take_left]

/-- A line starts in front of the end of the signature exactly if it is not below its last line. -/
theorem Matches.offsetAt_lt_iff {ls : List Line} {n : Nat} (h : d.Matches p before sig after)
    (hd : Line.Reads d.text ls) (hn : n < ls.length) :
    d.offsetAt ⟨n, 0⟩ < (before ++ sig).length ↔ n ≤ (before ++ sig).count (.char '\n') := by
  obtain ⟨t, rfl⟩ := h.exists_close
  have htext : d.text = (before ++ t) ++ .char ')' :: after := by simp [← h.text_eq]
  have hcount : ((before ++ t) ++ [CodePoint.char ')']).count (.char '\n') =
      (before ++ t).count (.char '\n') := by
    rw [List.count_append, List.count_singleton, if_neg (by decide), Nat.add_zero]
  rw [← List.append_assoc, hcount, List.length_append, List.length_singleton, Nat.lt_succ_iff,
    Document.offsetAt_le_iff hd hn, htext, List.take_left]

theorem Matches.count_lt {ls : List Line} (h : d.Matches p before sig after)
    (hd : Line.Reads d.text ls) : (before ++ sig).count (.char '\n') < ls.length := by
  rw [← hd.count_feed, ← h.text_eq, ← List.append_assoc, Nat.lt_succ_iff]
  exact (List.sublist_append_left _ after).count_le _

/-- Where actions are offered, what the plan of one says of the surroundings. -/
theorem exists_offered (h : d.memberActions p s ≠ []) :
    ∃ a ∈ d.memberActions p s, ∃ plan, a.plan = .member plan ∧
      plan.constructorStart = d.memberStart p ∧ d.bodyStart p = some plan.bodyStart := by
  obtain ⟨a, ha⟩ := List.exists_mem_of_ne_nil _ h
  obtain ⟨selected, body, kind, -, hbody, rfl⟩ := mem_memberActions ha
  exact ⟨_, ha, _, rfl, rfl, hbody⟩

/-! ## The declaration -/

/-- The blank line nearest to the position, among its line and the four above, that is not above the
enclosing class. -/
structure IsGap (d : Document) (p : Position) (n : Nat) : Prop where
  near : p.line < n + scanLines ∧ (n : Int) ≤ p.line
  blank : (d.lines[n]?).any isBlankLine = true
  inside : ∃ owner, d.enclosingClass p.line = some owner ∧ owner.startLine ≤ n
  nearest : ∀ m, n < m → (m : Int) ≤ p.line → (d.lines[m]?).any isBlankLine = false

theorem IsGap.unique {m n : Nat} (hm : d.IsGap p m) (hn : d.IsGap p n) : m = n := by
  rcases Nat.lt_trichotomy m n with hlt | rfl | hlt
  · exact absurd hn.blank (by simp [hm.nearest n hlt hn.near.2])
  · rfl
  · exact absurd hm.blank (by simp [hn.nearest m hlt hm.near.2])

theorem blankAbove_eq_some_iff {lines : List Text} {floor : Int} {low count n : Nat} :
    blankAbove lines floor low count = some n ↔
      (low ≤ n ∧ n < low + count) ∧ ((lines[n]?).any isBlankLine = true ∧ floor ≤ n) ∧
        ∀ m, n < m → m < low + count → (lines[m]?).any isBlankLine = false := by
  induction count with
  | zero =>
    simp only [blankAbove, reduceCtorEq, false_iff]
    rintro ⟨hn, -⟩
    omega
  | succ k ih =>
    rw [blankAbove]
    split
    · rename_i hk
      rw [Bool.and_eq_true, decide_eq_true_iff] at hk
      constructor
      · intro h
        obtain rfl := Option.some.inj h
        exact ⟨by omega, hk, fun m _ _ => by omega⟩
      · rintro ⟨hn, -, hnearest⟩
        by_contra hne
        have hlt : n < low + k := by
          have : low + k ≠ n := fun he => hne (congrArg some he)
          omega
        rw [hnearest (low + k) hlt (by omega)] at hk
        exact Bool.false_ne_true hk.1
    · rename_i hk
      rw [Bool.and_eq_true, decide_eq_true_iff, not_and] at hk
      rw [ih]
      constructor
      · rintro ⟨hn, hblank, hnearest⟩
        refine ⟨by omega, hblank, fun m hm hlt => ?_⟩
        by_cases he : m = low + k
        · rw [← Bool.not_eq_true]
          exact fun hm => hk (he ▸ hm) (by omega)
        · exact hnearest m hm (by omega)
      · rintro ⟨hn, hblank, hnearest⟩
        have hne : n ≠ low + k := by
          rintro rfl
          exact hk hblank.1 (by omega)
        exact ⟨by omega, hblank, fun m hm hlt => hnearest m hm (by omega)⟩

theorem blankAbove_eq_some_iff_isGap {owner : ClassDecl} {n c : Nat} (hp : p.line = n)
    (ho : d.enclosingClass p.line = some owner) :
    blankAbove d.lines owner.startLine (n - 4) (n + 1 - (n - 4)) = some c ↔ d.IsGap p c := by
  rw [blankAbove_eq_some_iff]
  constructor
  · rintro ⟨hc, ⟨hblank, hfloor⟩, hnearest⟩
    refine ⟨?_, hblank, ⟨owner, ho, hfloor⟩, fun m hm hle => hnearest m hm (by omega)⟩
    rw [hp, scanLines]
    omega
  · rintro ⟨hnear, hblank, ⟨owner', ho', hfloor⟩, hnearest⟩
    obtain rfl := Option.some.inj (ho.symm.trans ho')
    rw [hp, scanLines] at hnear
    exact ⟨by omega, ⟨hblank, hfloor⟩, fun m hm hlt => hnearest m hm (by omega)⟩

/-- A member starts at the nearest blank line, and else at the cursor. -/
theorem memberStart_cases (d : Document) {n : Nat} (hp : p.line = n) (hn : n < d.lineCount) :
    (∃ c, d.IsGap p c ∧ d.memberStart p = ⟨c, 0⟩) ∨
      (∀ c, ¬d.IsGap p c) ∧ d.memberStart p = ⟨n, 0⟩ := by
  have hhere : (⟨max p.line 0, 0⟩ : Position) = ⟨n, 0⟩ := by rw [hp, Int.max_eq_left (by omega)]
  have hlow : (p.line - (scanLines - 1)).toNat = n - 4 := by rw [hp, scanLines]; omega
  have hcount : (min p.line (d.lineCount - 1) + 1 - ((n - 4 : Nat) : Int)).toNat =
      n + 1 - (n - 4) := by omega
  unfold memberStart
  dsimp only
  rw [hhere, hlow, hcount]
  split
  · rename_i hnone
    refine Or.inr ⟨fun c hc => ?_, rfl⟩
    obtain ⟨owner, ho, -⟩ := hc.inside
    rw [hnone] at ho
    cases ho
  · rename_i owner ho
    split
    · rename_i c hc
      exact Or.inl ⟨c, (blankAbove_eq_some_iff_isGap hp ho).mp hc, rfl⟩
    · rename_i hnone
      refine Or.inr ⟨fun c hc => ?_, rfl⟩
      rw [(blankAbove_eq_some_iff_isGap hp ho).mpr hc] at hnone
      cases hnone

theorem not_mem_of_isBlankLine {line : Text} (h : isBlankLine line = true) {c : CodePoint}
    (hc : Text.isBlank c = false) : c ∉ line := by
  intro hm
  rw [List.all_eq_true.mp h c hm] at hc
  cases hc

theorem lt_length_of_line {ls : List Line} {n : Nat} {line : Text} (hd : Line.Reads d.text ls)
    (h : d.lines[n]? = some line) : n < ls.length := by
  have hlt := (List.getElem?_eq_some_iff.mp h).1
  rwa [lines_eq hd, List.length_map] at hlt

/-- A character that is not blank and on none of the lines is not in their text. -/
theorem not_mem_slice_lines {ls : List Line} {n b : Nat} (hd : Line.Reads d.text ls) (hnb : n ≤ b)
    (hb : b < ls.length) {c : CodePoint} (hc : Text.isBlank c = false)
    (h : ∀ m, n ≤ m → m < b → ∀ line, d.lines[m]? = some line → c ∉ line) :
    c ∉ slice d.text (d.offsetAt ⟨n, 0⟩) (d.offsetAt ⟨b, 0⟩) := by
  rw [slice_lines hd hnb hb, Line.join, List.mem_flatMap]
  rintro ⟨k, hk, hmem⟩
  obtain ⟨j, hj, hk⟩ := mem_take_drop_iff.mp hk
  rcases List.mem_append.mp hmem with hmem | hmem
  · refine h (n + j) (Nat.le_add_right n j) hj k.content ?_ hmem
    rw [lines_eq hd, List.getElem?_map, hk, Option.map_some]
  · obtain ⟨pre, post, rfl⟩ := List.append_of_mem (List.mem_of_getElem? hk)
    rw [hd.isBlank_of_mem_ending _ hmem] at hc
    cases hc

theorem lt_length_of_blank {ls : List Line} {n : Nat} (hd : Line.Reads d.text ls)
    (h : (d.lines[n]?).any isBlankLine = true) : n < ls.length := by
  cases hl : d.lines[n]? with
  | none =>
    rw [hl] at h
    cases h
  | some line => exact lt_length_of_line hd hl

/-- No brace stands between the beginning of a blank line and that of the next line. -/
theorem not_mem_slice_of_blank {ls : List Line} {n : Nat} (hd : Line.Reads d.text ls)
    (hblank : (d.lines[n]?).any isBlankLine = true) {c : CodePoint} (hc : Text.isBlank c = false) :
    c ∉ slice d.text (d.offsetAt ⟨n, 0⟩) (d.offsetAt ⟨(n : Int) + 1, 0⟩) := by
  have hlt := lt_length_of_blank hd hblank
  rcases Line.exists_split hd.ne_nil n with ⟨pre, l, post, rfl, rfl⟩ | ⟨pre, l, rfl, hn⟩
  · have hl : isBlankLine l.content = true := by simpa [lines_eq hd] using hblank
    obtain ⟨r, hr, hslice⟩ := exists_slice_line hd
    rw [hslice, List.mem_append, not_or]
    refine ⟨not_mem_of_isBlankLine hl hc, fun hm => ?_⟩
    rw [hd.isBlank_of_mem_ending c (hr hm)] at hc
    cases hc
  · rw [List.length_append, List.length_singleton] at hlt
    omega

/-- A blank line in front does not matter to the braces. -/
theorem balanced_slice_iff {ls : List Line} {n : Nat} (hd : Line.Reads d.text ls)
    (hblank : (d.lines[n]?).any isBlankLine = true) (o : Nat) :
    (slice d.text (d.offsetAt ⟨n, 0⟩) o).Balanced ↔
      (slice d.text (d.offsetAt ⟨(n : Int) + 1, 0⟩) o).Balanced := by
  have h₁ := not_mem_slice_of_blank hd hblank (c := .char '{') (by decide)
  have h₂ := not_mem_slice_of_blank hd hblank (c := .char '}') (by decide)
  by_cases ho : d.offsetAt ⟨(n : Int) + 1, 0⟩ ≤ o
  · have hmono : d.offsetAt ⟨n, 0⟩ ≤ d.offsetAt ⟨(n : Int) + 1, 0⟩ :=
      offsetAt_line_mono d (Nat.le_succ n)
    rw [← slice_append_slice hmono ho]
    exact Text.balanced_append_iff h₁ h₂ _
  · have hsub := slice_subset_of_le (Nat.le_of_not_le ho) d.text (d.offsetAt ⟨n, 0⟩)
    rw [slice_eq_nil (Nat.le_of_not_le ho), ← Text.balanced_append_iff (fun hm => h₁ (hsub hm))
      (fun hm => h₂ (hsub hm)) [], List.append_nil]

/-- No brace stands on the lines from the given one to that of the signature, in front of it. -/
def ClearFrom (d : Document) (before : Text) (c : Nat) : Prop :=
  ∀ x ∈ [CodePoint.char '{', .char '}'],
    (∀ m, c ≤ m → m < before.count (.char '\n') → ∀ line, d.lines[m]? = some line → x ∉ line) ∧
      x ∉ slice d.text (d.offsetAt ⟨before.count (.char '\n'), 0⟩) before.length

theorem Matches.balanced_slice {ls : List Line} {c : Nat} (h : d.Matches p before sig after)
    (hd : Line.Reads d.text ls) (hc : c ≤ before.count (.char '\n')) (hclear : d.ClearFrom before c) :
    (slice d.text (d.offsetAt ⟨c, 0⟩) before.length).Balanced := by
  have hs : before.count (.char '\n') < ls.length := by
    have hlt := h.count_lt hd
    rw [List.count_append] at hlt
    omega
  have hblank : ∀ x ∈ [CodePoint.char '{', .char '}'], Text.isBlank x = false := by decide
  have hnone : ∀ x ∈ [CodePoint.char '{', .char '}'],
      x ∉ slice d.text (d.offsetAt ⟨c, 0⟩) before.length := by
    intro x hx
    obtain ⟨hlines, hpart⟩ := hclear x hx
    rw [← slice_append_slice (offsetAt_line_mono d hc)
      ((h.offsetAt_le_iff hd hs).mpr (Nat.le_refl _)), List.mem_append, not_or]
    exact ⟨not_mem_slice_lines hd hc hs (hblank x hx) hlines, hpart⟩
  rw [← List.append_nil (slice _ _ _), Text.balanced_append_iff (hnone _ (by simp))
    (hnone _ (by simp))]
  exact Text.balanced_nil

/-- A declaration on line `c`, where a signature and the text before it are given: on which line it
is, when it comes in front of the signature or inside it, and when braces balance between. -/
structure Declares (d : Document) (p : Position) (before sig : Text) (c : Nat) : Prop where
  /-- The line that the search comes to: the gap, or the line of the cursor if there is no gap. -/
  line : d.IsGap p c ∨ (∀ b, ¬d.IsGap p b) ∧ p.line = c
  above : d.offsetAt ⟨c, 0⟩ ≤ before.length ↔ c ≤ before.count (.char '\n')
  line_le : c ≤ before.count (.char '\n') ↔ p.line ≤ before.count (.char '\n') ∨
    ∃ b, d.IsGap p b ∧ b ≤ before.count (.char '\n')
  within : before.length < d.offsetAt ⟨c, 0⟩ ∧ d.offsetAt ⟨c, 0⟩ < (before ++ sig).length ↔
    before.count (.char '\n') < c ∧ c ≤ (before ++ sig).count (.char '\n')
  /-- Whether braces balance does not depend on the gap itself. This follows from the gap being
  blank alone, and is not said of the line of the cursor. -/
  balanced : d.IsGap p c → ((slice d.text (d.offsetAt ⟨c, 0⟩) before.length).Balanced ↔
    (slice d.text (d.offsetAt ⟨(c : Int) + 1, 0⟩) before.length).Balanced)
  /-- Without braces nothing is unbalanced. This follows for any line that is not below the
  signature, be it a gap or the line of the cursor. -/
  clear : c ≤ before.count (.char '\n') → d.ClearFrom before c →
    (slice d.text (d.offsetAt ⟨c, 0⟩) before.length).Balanced

theorem Matches.declares {ls : List Line} {n c : Nat} (h : d.Matches p before sig after)
    (hd : Line.Reads d.text ls) (hp : p.line = n) (hn : n < ls.length)
    (hc : d.IsGap p c ∨ (∀ b, ¬d.IsGap p b) ∧ p.line = c) : d.Declares p before sig c := by
  have hle : c ≤ n := by
    rcases hc with hc | ⟨-, hc⟩
    · have := hc.near.2
      omega
    · omega
  have habove := h.offsetAt_le_iff hd (hle.trans_lt hn)
  have hwithin := h.offsetAt_lt_iff hd (hle.trans_lt hn)
  refine ⟨hc, habove, ?_, ?_, fun hgap => balanced_slice_iff hd hgap.blank _,
    h.balanced_slice hd⟩
  · rcases hc with hgap | ⟨hnone, hc⟩
    · constructor
      · exact fun hb => Or.inr ⟨c, hgap, hb⟩
      · rintro (hb | ⟨b, hb, hlt⟩)
        · omega
        · rwa [hgap.unique hb]
    · constructor
      · exact fun hb => Or.inl (by omega)
      · rintro (hb | ⟨b, hb, -⟩)
        · omega
        · exact absurd hb (hnone b)
  · rw [hwithin, ← Nat.not_le, habove, Nat.not_le]

/-- For every member action that is offered: its declaration goes to the nearest blank line, and to
the line of the cursor where there is none. It comes in front of the signature exactly if the cursor
is not below the first line of the signature or such a blank line is not; it falls inside the
signature exactly if its line is below that first line and not below the last one. -/
theorem declaration_placement {a : Action} (h : a ∈ d.memberActions p s) :
    ∃ plan before sig after c, a.plan = .member plan ∧ d.Matches p before sig after ∧
      (d.selectedParameter p).map (·.signatureLine) = some (before.count (.char '\n')) ∧
      plan.constructorStart = ⟨(c : Nat), 0⟩ ∧ d.Declares p before sig c := by
  obtain ⟨selected, body, kind, hs, -, rfl⟩ := mem_memberActions h
  obtain ⟨pre, l, post, -, -, -, hd, hp, -⟩ := exists_of_selectedParameter hs
  obtain ⟨before, sig, after, hmatches, hline⟩ := exists_matches_of_selectedParameter hs
  have hselected : (d.selectedParameter p).map (·.signatureLine) =
      some (before.count (.char '\n')) := by rw [hs, Option.map_some, hline]
  have hn : pre.length < (pre ++ l :: post).length := by simp
  have hcount : pre.length < d.lineCount := by rwa [lineCount_eq hd]
  rcases memberStart_cases d hp hcount with ⟨c, hgap, hstart⟩ | ⟨hnone, hstart⟩
  · exact ⟨_, before, sig, after, c, rfl, hmatches, hselected, hstart,
      hmatches.declares hd hp hn (Or.inl hgap)⟩
  · exact ⟨_, before, sig, after, pre.length, rfl, hmatches, hselected, hstart,
      hmatches.declares hd hp hn (Or.inr ⟨hnone, hp⟩)⟩

theorem declaration_placement_below_field :
    ∃ (d : Document) (p : Position) (a : Action), p = ⟨4, 17⟩ ∧
      d.text = ("public class A\n\x7b\n    private int y;\n\n    public A(int x)\n    \x7b\n" ++
        "    \x7d\n\x7d\n") ∧ a ∈ d.memberActions p {} ∧
      ∃ plan before sig after c, a.plan = .member plan ∧ d.Matches p before sig after ∧
        (d.selectedParameter p).map (·.signatureLine) = some (before.count (.char '\n')) ∧
        plan.constructorStart = ⟨(c : Nat), 0⟩ ∧ d.Declares p before sig c := by
  have hne : (Document.mk ("public class A\n\x7b\n    private int y;\n\n    public A(int x)\n    \x7b\n" ++
        "    \x7d\n\x7d\n") none).memberActions ⟨4, 17⟩ {} ≠ [] := by
    decide +kernel
  obtain ⟨a, ha⟩ := List.exists_mem_of_ne_nil _ hne
  exact ⟨_, _, a, rfl, rfl, ha, declaration_placement ha⟩

/-- Two placements: on the second line of the parameters, and in the body of the member above. -/
theorem declaration_falls_inside_parameters :
    (∃ (d : Document) (p : Position) (a : Action) (plan : MemberPlan) (before sig after : Text),
      before = "public class A\n\x7b\n    " ∧ sig = "public A(int x,\n        int y)" ∧
      after = "\n    \x7b\n    \x7d\n\x7d\n" ∧ d.Matches p before sig after ∧
      a ∈ d.memberActions p {} ∧ a.plan = .member plan ∧
      before.length < d.offsetAt plan.constructorStart ∧
      d.offsetAt plan.constructorStart < (before ++ sig).length) ∧
    ∃ (d : Document) (p : Position) (a : Action) (plan : MemberPlan) (before sig after : Text),
      before = "public class A\n\x7b\n    void M()\n    \x7b\n\n        N(); \x7d\n    " ∧
      sig = "public A(int x)" ∧ after = "\n    \x7b\n    \x7d\n\x7d\n" ∧
      d.Matches p before sig after ∧ a ∈ d.memberActions p {} ∧ a.plan = .member plan ∧
      d.offsetAt plan.constructorStart < before.length ∧
      ¬(slice d.text (d.offsetAt plan.constructorStart) before.length).Balanced := by
  refine ⟨?_, ?_⟩
  · have hne : (Document.mk ("public class A\n\x7b\n    " ++ ("public A(int x,\n        int y)" ++
        "\n    \x7b\n    \x7d\n\x7d\n")) none).memberActions ⟨3, 12⟩ {} ≠ [] := by
      decide +kernel
    have hwhole : Whole "public A(int x,\n        int y)" "public" "A" "int x,\n        int y" :=
      Signature.whole_of_word? "public" "A" "int x,\n        int y" (by decide)
    obtain ⟨a, ha, plan, hplan, hstart, -⟩ := exists_offered hne
    refine ⟨_, _, a, plan, _, _, _, rfl, rfl, rfl,
      ⟨rfl, ⟨"public", "A", "int x,\n        int y", 6⟩, ?_, ?_, hwhole⟩, ha, hplan, ?_, ?_⟩
    · decide +kernel
    · decide +kernel
    · rw [hstart]
      decide +kernel
    · rw [hstart]
      decide +kernel
  · have hne : (Document.mk ("public class A\n\x7b\n    void M()\n    \x7b\n\n        N(); \x7d\n    " ++
        ("public A(int x)" ++ "\n    \x7b\n    \x7d\n\x7d\n")) none).memberActions ⟨6, 17⟩ {} ≠ [] := by
      decide +kernel
    have hwhole : Whole "public A(int x)" "public" "A" "int x" :=
      Signature.whole_of_word? "public" "A" "int x" (by decide)
    obtain ⟨a, ha, plan, hplan, hstart, -⟩ := exists_offered hne
    refine ⟨_, _, a, plan, _, _, _, rfl, rfl, rfl,
      ⟨rfl, ⟨"public", "A", "int x", 20⟩, ?_, ?_, hwhole⟩, ha, hplan, ?_, ?_⟩
    · decide +kernel
    · decide +kernel
    · rw [hstart]
      decide +kernel
    · rw [hstart]
      rintro ⟨heq, -⟩
      revert heq
      decide +kernel

/-! ## The assignment -/

/-- The first line with an opening brace among the line of the position and the four below. -/
structure IsOpening (d : Document) (p : Position) (b : Nat) : Prop where
  near : p.line ≤ b ∧ b < p.line + scanLines
  brace : ∃ line, d.lines[b]? = some line ∧ CodePoint.char '{' ∈ line
  first : ∀ m, p.line ≤ (m : Nat) → m < b → ∀ line, d.lines[m]? = some line →
    CodePoint.char '{' ∉ line

theorem isOpening_of_bodyStart {n : Nat} (hp : p.line = n) {q : Position}
    (h : d.bodyStart p = some q) : ∃ b : Nat, d.IsOpening p b ∧ q = ⟨(b : Int) + 1, 0⟩ := by
  obtain ⟨j, hj, rfl, hbrace⟩ := exists_of_bodyStart hp h
  refine ⟨n + j, ⟨by omega, hbrace, ?_⟩, rfl⟩
  rw [bodyStart_eq d hp] at h
  obtain ⟨j', hj', heq⟩ := Option.map_eq_some_iff.mp h
  obtain rfl : j' = j := by
    rw [Position.mk.injEq] at heq
    omega
  obtain ⟨hlt, -, hfirst⟩ := List.findIdx?_eq_some_iff_getElem.mp hj'
  rw [List.length_drop, List.length_take] at hlt
  intro m hm hmj line hline hmem
  have hget : ((d.lines.take (min (n + scanLines) d.lineCount)).drop n)[m - n]? = some line := by
    rw [List.getElem?_drop, Nat.add_sub_cancel' (by omega), List.getElem?_take_of_lt (by omega),
      hline]
  obtain ⟨_, hget⟩ := List.getElem?_eq_some_iff.mp hget
  have hnot := hfirst (m - n) (by omega)
  rw [hget] at hnot
  exact hnot (List.contains_iff_mem.mpr hmem)

theorem not_mem_slice_of_isOpening {ls : List Line} {n b : Nat} (hd : Line.Reads d.text ls)
    (hp : p.line = n) (h : d.IsOpening p b) :
    CodePoint.char '{' ∉ slice d.text (d.offsetAt ⟨n, 0⟩) (d.offsetAt ⟨b, 0⟩) := by
  obtain ⟨line, hline, -⟩ := h.brace
  have hnb := h.near.1
  exact not_mem_slice_lines hd (by omega) (lt_length_of_line hd hline) (by decide)
    fun m hm hlt => h.first m (by omega) hlt

theorem count_slice {t : Text} {c : CodePoint} {x y z : Nat} (hxy : x ≤ y) (hyz : y ≤ z)
    (hc : c ∉ slice t x y) (o : Nat) :
    (slice t o z).count c = (slice t o x).count c + (slice t (max o y) z).count c := by
  rcases Nat.le_total o x with hox | hox
  · rw [max_eq_right (hox.trans hxy), ← slice_append_slice hox (hxy.trans hyz),
      ← slice_append_slice hxy hyz, List.count_append, List.count_append,
      List.count_eq_zero.mpr hc, Nat.zero_add]
  · rw [slice_eq_nil hox, List.count_nil, Nat.zero_add]
    rcases Nat.le_total o y with hoy | hoy
    · have hnone : c ∉ slice t o y := fun hm => hc (slice_subset_slice hox t y hm)
      rw [max_eq_right hoy, ← slice_append_slice hoy hyz, List.count_append,
        List.count_eq_zero.mpr hnone, Nat.zero_add]
    · rw [max_eq_left hoy]

/-- The signature ends in front of the last line's ending. -/
theorem Matches.length_le {pre : List Line} {l : Line} (h : d.Matches p before sig after)
    (hd : Line.Reads d.text (pre ++ [l])) :
    (before ++ sig).length ≤ (Line.join pre).length + l.content.length := by
  obtain ⟨t, rfl⟩ := h.exists_close
  have htext : (Line.join pre ++ l.content) ++ l.ending = (before ++ t) ++ .char ')' :: after := by
    have heq := hd.join_eq.trans h.text_eq.symm
    simpa [Line.text] using heq
  have hclose : CodePoint.char ')' ∉ l.ending :=
    fun hm => absurd (hd.isBlank_of_mem_ending _ hm) (by decide)
  rw [← List.append_assoc, ← List.length_append]
  rcases List.append_eq_append_iff.mp htext with ⟨r, -, hr⟩ | ⟨r, hr, hclosed⟩
  · exact absurd (hr ▸ List.mem_append_right r List.mem_cons_self) hclose
  · cases r with
    | nil =>
      rw [List.nil_append] at hclosed
      exact absurd (hclosed ▸ List.mem_cons_self) hclose
    | cons c r =>
      simp only [hr, List.length_append, List.length_cons, List.length_nil]
      omega

/-- The next line starts behind the signature exactly if the signature does not end below. -/
theorem Matches.le_offsetAt_iff {ls : List Line} {b : Nat} (h : d.Matches p before sig after)
    (hd : Line.Reads d.text ls) (hb : b < ls.length) :
    (before ++ sig).length ≤ d.offsetAt ⟨(b : Int) + 1, 0⟩ ↔
      (before ++ sig).count (.char '\n') ≤ b := by
  by_cases hnext : b + 1 < ls.length
  · have hlt := h.offsetAt_lt_iff hd hnext
    rw [Int.natCast_succ] at hlt
    omega
  · have hcount := h.count_lt hd
    rcases Line.exists_split hd.ne_nil (b + 1) with ⟨pre, l, post, rfl, hpre⟩ | ⟨pre, l, rfl, hpre⟩
    · simp [hpre] at hnext
    · rw [offsetAt_past hd (by omega)]
      exact iff_of_true (h.length_le hd) (by omega)

/-- An assignment below line `b`, where a signature and the text before it are given: on which line
it is, when it comes behind the signature, and which opening braces stand between. -/
structure Assigns (d : Document) (p : Position) (before sig : Text) (b : Nat) : Prop where
  opening : d.IsOpening p b
  behind : (before ++ sig).length ≤ d.offsetAt ⟨(b : Int) + 1, 0⟩ ↔
    (before ++ sig).count (.char '\n') ≤ b
  opened : (slice d.text (before ++ sig).length (d.offsetAt ⟨(b : Int) + 1, 0⟩)).count (.char '{') =
    (slice d.text (before ++ sig).length (d.offsetAt ⟨p.line, 0⟩)).count (.char '{') +
      (slice d.text (max (before ++ sig).length (d.offsetAt ⟨b, 0⟩))
        (d.offsetAt ⟨(b : Int) + 1, 0⟩)).count (.char '{')
  /-- Where nothing is closed on the way, a block is open. This follows for any line below the
  signature that has an opening brace, and so for the one that the search comes to. -/
  inside : (before ++ sig).count (.char '\n') < b →
    CodePoint.char '}' ∉ slice d.text (before ++ sig).length (d.offsetAt ⟨(b : Int) + 1, 0⟩) →
      (slice d.text (before ++ sig).length (d.offsetAt ⟨(b : Int) + 1, 0⟩)).count (.char '}') <
        (slice d.text (before ++ sig).length (d.offsetAt ⟨(b : Int) + 1, 0⟩)).count (.char '{')

theorem Matches.assigns {ls : List Line} {n b : Nat} (h : d.Matches p before sig after)
    (hd : Line.Reads d.text ls) (hp : p.line = n) (hb : d.IsOpening p b) :
    d.Assigns p before sig b := by
  obtain ⟨line, hline, hbrace⟩ := hb.brace
  have hlt := lt_length_of_line hd hline
  have hnb := hb.near.1
  have hnone := not_mem_slice_of_isOpening hd hp hb
  have hcursor : d.offsetAt ⟨n, 0⟩ ≤ d.offsetAt ⟨b, 0⟩ := offsetAt_line_mono d (by omega)
  have hnext : d.offsetAt ⟨b, 0⟩ ≤ d.offsetAt ⟨(b : Int) + 1, 0⟩ := offsetAt_line_mono d b.le_succ
  have hopened := count_slice hcursor hnext hnone (before ++ sig).length
  rw [← hp] at hopened
  refine ⟨hb, h.le_offsetAt_iff hd hlt, hopened, fun hend hclose => ?_⟩
  rw [List.count_eq_zero.mpr hclose, List.count_pos_iff]
  -- the whole line with the brace is behind the signature
  have hle : (before ++ sig).length ≤ d.offsetAt ⟨b, 0⟩ := by
    have hiff := h.offsetAt_lt_iff hd hlt
    omega
  rw [← slice_append_slice hle hnext]
  refine List.mem_append_right _ ?_
  rcases Line.exists_split hd.ne_nil b with ⟨pre, l, post, rfl, rfl⟩ | ⟨pre, l, rfl, hpre⟩
  · obtain ⟨r, -, hslice⟩ := exists_slice_line hd
    rw [hslice]
    have hl : l.content = line := by simpa [lines_eq hd] using hline
    exact List.mem_append_left r (hl ▸ hbrace)
  · rw [List.length_append, List.length_singleton] at hlt
    omega

/-- For every member action that is offered: its assignment goes below the first line with an opening
brace. It comes behind the signature exactly if the signature does not end below that line. All
opening braces between are above the cursor's line or on that line. -/
theorem assignment_placement {a : Action} (h : a ∈ d.memberActions p s) :
    ∃ plan before sig after b, a.plan = .member plan ∧ d.Matches p before sig after ∧
      plan.bodyStart = ⟨((b : Nat) : Int) + 1, 0⟩ ∧ d.Assigns p before sig b := by
  obtain ⟨selected, body, kind, hs, hbody, rfl⟩ := mem_memberActions h
  obtain ⟨pre, l, post, -, -, -, hd, hp, -⟩ := exists_of_selectedParameter hs
  obtain ⟨before, sig, after, hmatches, -⟩ := exists_matches_of_selectedParameter hs
  obtain ⟨b, hb, rfl⟩ := isOpening_of_bodyStart hp hbody
  exact ⟨_, before, sig, after, b, rfl, hmatches, rfl, hmatches.assigns hd hp hb⟩

theorem assignment_placement_below_brace :
    ∃ (d : Document) (p : Position) (a : Action), p = ⟨2, 17⟩ ∧
      d.text = "public class A\n\x7b\n    public A(int x)\n    \x7b\n    \x7d\n\x7d\n" ∧
      a ∈ d.memberActions p {} ∧
      ∃ plan before sig after b, a.plan = .member plan ∧ d.Matches p before sig after ∧
        plan.bodyStart = ⟨((b : Nat) : Int) + 1, 0⟩ ∧ d.Assigns p before sig b := by
  have hne : (Document.mk "public class A\n\x7b\n    public A(int x)\n    \x7b\n    \x7d\n\x7d\n"
      none).memberActions ⟨2, 17⟩ {} ≠ [] := by
    decide +kernel
  obtain ⟨a, ha⟩ := List.exists_mem_of_ne_nil _ hne
  exact ⟨_, _, a, rfl, rfl, ha, assignment_placement ha⟩

/-- Two placements: between the parameters, and behind a body that is closed on its line. -/
theorem assignment_falls_outside_body :
    (∃ (d : Document) (p : Position) (a : Action) (plan : MemberPlan) (before sig after : Text),
      before = "class A \x7b " ∧ sig = "public A(int x,\n    int y)" ∧
      after = "\n\x7b\n\x7d\n\x7d\n" ∧ d.Matches p before sig after ∧
      a ∈ d.memberActions p {} ∧ a.plan = .member plan ∧
      d.offsetAt plan.bodyStart < (before ++ sig).length) ∧
    ∃ (d : Document) (p : Position) (a : Action) (plan : MemberPlan) (before sig after : Text),
      before = "public class A\n\x7b\n    " ∧ sig = "public A(int x)" ∧
      after = " \x7b \x7d\n\x7d\n" ∧ d.Matches p before sig after ∧
      a ∈ d.memberActions p {} ∧ a.plan = .member plan ∧
      ¬(slice d.text (before ++ sig).length (d.offsetAt plan.bodyStart)).count (.char '\x7d') <
        (slice d.text (before ++ sig).length (d.offsetAt plan.bodyStart)).count (.char '\x7b') := by
  refine ⟨?_, ?_⟩
  · have hne : (Document.mk ("class A \x7b " ++ ("public A(int x,\n    int y)" ++
        "\n\x7b\n\x7d\n\x7d\n")) none).memberActions ⟨0, 23⟩ {} ≠ [] := by
      decide +kernel
    have hwhole : Whole "public A(int x,\n    int y)" "public" "A" "int x,\n    int y" :=
      Signature.whole_of_word? "public" "A" "int x,\n    int y" (by decide)
    obtain ⟨a, ha, plan, hplan, -, hbody⟩ := exists_offered hne
    have hstart : plan.bodyStart = ⟨1, 0⟩ := by
      apply Option.some.inj
      rw [← hbody]
      decide +kernel
    refine ⟨_, _, a, plan, _, _, _, rfl, rfl, rfl,
      ⟨rfl, ⟨"public", "A", "int x,\n    int y", 10⟩, ?_, ?_, hwhole⟩, ha, hplan, ?_⟩
    · decide +kernel
    · decide +kernel
    · rw [hstart]
      decide +kernel
  · have hne : (Document.mk ("public class A\n\x7b\n    " ++ ("public A(int x)" ++
        " \x7b \x7d\n\x7d\n")) none).memberActions ⟨2, 17⟩ {} ≠ [] := by
      decide +kernel
    have hwhole : Whole "public A(int x)" "public" "A" "int x" :=
      Signature.whole_of_word? "public" "A" "int x" (by decide)
    obtain ⟨a, ha, plan, hplan, -, hbody⟩ := exists_offered hne
    have hstart : plan.bodyStart = ⟨3, 0⟩ := by
      apply Option.some.inj
      rw [← hbody]
      decide +kernel
    refine ⟨_, _, a, plan, _, _, _, rfl, rfl, rfl,
      ⟨rfl, ⟨"public", "A", "int x", 21⟩, ?_, ?_, hwhole⟩, ha, hplan, ?_⟩
    · decide +kernel
    · decide +kernel
    · rw [hstart]
      decide +kernel

end Document

end CSharpActions
