import CSharpActions.Proofs.Action.Offer
import CSharpActions.Proofs.Declaration.Quiet
import CSharpActions.Proofs.Document.Insertion

/-!
# What a cursor sees

A parameter is selected through the word at the cursor and the first signature in the lines around
it. Where that signature stands on the cursor's own line, the line and the two lines above it say
all about the selection.
-/
namespace CSharpActions

/-- The lines above the cursor in which a signature is searched. -/
def Line.nearest (above : List Line) : List Line := above.drop (above.length - 2)

theorem Line.join_take_append_nearest (above : List Line) :
    Line.join (above.take (above.length - 2)) ++ Line.join (Line.nearest above) =
      Line.join above := by
  rw [← Line.join_append, Line.nearest, List.take_append_drop]

/-- A cursor on a line, below the given ones, selects a parameter of a signature on that line. -/
structure Sees (above : List Line) (line : Text) (character : Int) (type name : Text) : Prop where
  word : ∃ a b, line = a ++ (name ++ b) ∧ Text.IsWordIn a name b ∧
    (a.length ≤ character ∧ character ≤ a.length + name.length)
  signature : ∃ x t y m n ps, line = x ++ (t ++ y) ∧ Signature.Whole t m n ps ∧
    Signature.Silent x t ∧ Parameter.typeOf? ps name = some type
  quiet : Line.Quiet above

namespace Document

variable {d : Document} {p : Position} {l : Line} {pre post : List Line}

/-- The first signature around the position begins on its line, and all of it can be read there. -/
def SignatureOnLine (d : Document) (p : Position) : Prop :=
  ∃ sig line c, Signature.find? (d.window p) = some sig ∧ d.line? p.line = some line ∧
    c ≤ line.length ∧ d.offsetAt ⟨windowStart p, 0⟩ + sig.offset = d.offsetAt ⟨p.line, (c : Nat)⟩ ∧
    (Signature.head? (line.drop c)).isSome

theorem offsetAt_windowStart (h : Line.Reads d.text (pre ++ l :: post))
    (hp : p.line = pre.length) :
    d.offsetAt ⟨windowStart p, 0⟩ + (Line.join (Line.nearest pre)).length =
      (Line.join pre).length := by
  have hw : windowStart p = pre.length - 2 := by
    rw [windowStart, hp, signatureWindow]
    omega
  have ht : (pre ++ l :: post).take (pre.length - 2) = pre.take (pre.length - 2) :=
    List.take_append_of_le_length (by omega)
  rw [hw, offsetAt_eq_take h (by simp; omega), ht, ← List.length_append,
    Line.join_take_append_nearest]

/-- The search goes at least to the end of the cursor's line. -/
theorem length_le_offsetAt_window (h : Line.Reads d.text (pre ++ l :: post)) :
    (Line.join pre).length + l.content.length ≤ d.offsetAt ⟨(pre.length : Int) + 2, 0⟩ := by
  cases post with
  | nil => rw [offsetAt_past h (by omega)]
  | cons k post =>
    have h' := h
    rw [List.append_cons] at h'
    have hk := offsetAt_line h'
    have hm := offsetAt_line_mono d (n := pre.length + 1) (m := pre.length + 2) (by omega)
    rw [List.length_append, List.length_singleton] at hk
    rw [hk, Line.join_append, List.length_append] at hm
    simp only [Line.join_cons, Line.join_nil, List.append_nil, Line.text, List.length_append] at hm
    have hc : ((pre.length + 2 : Nat) : Int) = (pre.length : Int) + 2 := by omega
    rw [hc] at hm
    omega

theorem take_append_of_le {x : Text} {n : Nat} (h : x.length ≤ n) (y : Text) :
    ∃ z, (x ++ y).take n = x ++ z :=
  ⟨y.take (n - x.length), by rw [List.take_append, List.take_of_length_le h]⟩

/-- The searched text begins with the nearest lines above and the cursor's line. -/
theorem exists_window (h : Line.Reads d.text (pre ++ l :: post)) (hp : p.line = pre.length) :
    ∃ rest, d.window p = Line.join (Line.nearest pre) ++ (l.content ++ rest) := by
  have hstart := offsetAt_windowStart h hp
  have hstop := length_le_offsetAt_window h
  have hj := Line.join_take_append_nearest pre
  have ht : d.text = Line.join (pre.take (pre.length - 2)) ++
      ((Line.join (Line.nearest pre) ++ l.content) ++ (l.ending ++ Line.join post)) := by
    rw [← h.join_eq, Line.join_append, Line.join_cons, ← hj, Line.text]
    simp only [List.append_assoc]
  have hlen : (Line.join (pre.take (pre.length - 2))).length = d.offsetAt ⟨windowStart p, 0⟩ := by
    rw [← hj, List.length_append] at hstart
    omega
  have hw : d.window p = (((Line.join (Line.nearest pre) ++ l.content) ++
      (l.ending ++ Line.join post)).take
        (d.offsetAt ⟨p.line + signatureWindow, 0⟩ - d.offsetAt ⟨windowStart p, 0⟩)) := by
    rw [window, textIn, slice]
    dsimp only
    rw [← hlen]
    conv_lhs => rw [ht]
    rw [List.drop_left]
  obtain ⟨z, hz⟩ := take_append_of_le (x := Line.join (Line.nearest pre) ++ l.content)
    (n := d.offsetAt ⟨p.line + signatureWindow, 0⟩ - d.offsetAt ⟨windowStart p, 0⟩)
    (by rw [hp, signatureWindow, List.length_append]; omega) (l.ending ++ Line.join post)
  exact ⟨z, by rw [hw, hz, List.append_assoc]⟩

theorem names_of_whole {x t y m n ps : Text} (hw : Signature.Whole t m n ps)
    (hn : CodePoint.char '\n' ∉ x ++ (t ++ y)) : Signature.Names (x ++ t) := by
  obtain ⟨u, hu⟩ := hw.exists_paren
  have ht : t = u ++ .char '(' :: (ps ++ [.char ')']) := by simpa using hu []
  have hm : CodePoint.char '(' ∈ x ++ t := by simp [ht]
  simpa using Signature.names_append (t := []) (v := x ++ t)
    (fun h => hn (by rw [← List.append_assoc]; exact List.mem_append_left y h)) hm

theorem inner_of_mem_nearest (h : Line.Reads d.text (pre ++ l :: post)) :
    ∀ k ∈ Line.nearest pre, k.Inner :=
  fun k hk => h.split.1 k ((List.drop_suffix _ _).subset hk)

/-- A parameter that is selected in a signature on the cursor's line is seen there. -/
theorem sees_of_selectedParameter {selected : Selected} (hon : d.SignatureOnLine p)
    (hs : d.selectedParameter p = some selected) :
    ∃ pre l post, Line.Reads d.text (pre ++ l :: post) ∧ p.line = pre.length ∧
      Sees (Line.nearest pre) l.content p.character selected.type selected.name := by
  obtain ⟨pre, l, post, a, b, sig, hd, hp, hl, hw, hc, hsig, htype⟩ :=
    exists_of_selectedParameter hs
  obtain ⟨sig', line, c, hsig', hline, hcl, hoff, hhead⟩ := hon
  obtain rfl := Option.some.inj (hsig.symm.trans hsig')
  obtain rfl := Option.some.inj ((line?_of_reads hd hp).symm.trans hline)
  obtain ⟨⟨m, n, ps⟩, hhead⟩ := Option.isSome_iff_exists.mp hhead
  obtain ⟨t, y, ht, hwhole⟩ := Signature.exists_whole_of_head? hhead
  have hsplit : l.content = l.content.take c ++ (t ++ y) := by
    rw [← ht, List.take_append_drop]
  obtain ⟨rest, hwin⟩ := exists_window hd hp
  have hoffset : sig.offset = (Line.join (Line.nearest pre) ++ l.content.take c).length := by
    have h₁ := offsetAt_windowStart hd hp
    have h₂ := offsetAt_inside hd hcl
    rw [hp] at hoff
    rw [List.length_append, List.length_take, min_eq_left hcl]
    omega
  have hcut : d.window p = (Line.join (Line.nearest pre) ++ l.content.take c) ++
      (t ++ (y ++ rest)) := by
    rw [hwin]
    conv_lhs => rw [hsplit]
    simp only [List.append_assoc]
  obtain ⟨⟨i, m', n', ps'⟩, hleft, hsigeq⟩ := Option.map_eq_some_iff.mp hsig
  subst hsigeq
  dsimp only at hoffset htype
  -- the signature that is found is the one that can be read on the line
  have hsame : (m', n', ps') = (m, n, ps) := by
    have hf := (Text.leftmost?_eq_some hleft).2.1
    rw [hcut, hoffset, List.drop_left, hwhole.head?_append] at hf
    exact (Option.some.inj hf).symm
  simp only [Prod.mk.injEq] at hsame
  obtain ⟨rfl, rfl, rfl⟩ := hsame
  rw [hcut, hoffset, hwhole.leftmost?_eq_iff] at hleft
  have hnames : Signature.Names (l.content.take c ++ t) :=
    names_of_whole (y := y) hwhole (hsplit ▸ hd.not_mem_content)
  obtain ⟨hquiet, hsilent⟩ :=
    (Line.silent_join_append_iff (inner_of_mem_nearest hd) _ hnames).mp hleft
  exact ⟨pre, l, post, hd, hp, ⟨a, b, hl, hw, hc⟩,
    ⟨_, t, y, _, _, _, hsplit, hwhole, hsilent, htype⟩, hquiet⟩

/-- What is seen on the cursor's line is selected. -/
theorem selectedParameter_of_sees {type name : Text} (h : Line.Reads d.text (pre ++ l :: post))
    (hp : p.line = pre.length)
    (hsees : Sees (Line.nearest pre) l.content p.character type name) :
    ∃ n, d.selectedParameter p = some ⟨type, name, n⟩ := by
  obtain ⟨⟨a, b, hl, hw, hc⟩, ⟨x, t, y, m, n, ps, hsplit, hwhole, hsilent, htype⟩, hquiet⟩ := hsees
  obtain ⟨rest, hwin⟩ := exists_window h hp
  have hnames : Signature.Names (x ++ t) :=
    names_of_whole (y := y) hwhole (hsplit ▸ h.not_mem_content)
  have hcut : d.window p = (Line.join (Line.nearest pre) ++ x) ++ (t ++ (y ++ rest)) := by
    rw [hwin, hsplit]
    simp only [List.append_assoc]
  have hfind : Signature.find? (d.window p) =
      some ⟨m, n, ps, (Line.join (Line.nearest pre) ++ x).length⟩ := by
    have hs := (Line.silent_join_append_iff (inner_of_mem_nearest h) _ hnames).mpr
      ⟨hquiet, hsilent⟩
    rw [Signature.find?, hcut, (hwhole.leftmost?_eq_iff _ _).mpr hs]
    rfl
  have hword : d.wordRangeAt p =
      some ⟨⟨p.line, a.length⟩, ⟨p.line, a.length + name.length⟩⟩ := by
    refine wordRangeAt_eq_some_iff.mpr ⟨a, name, b, ?_, hw, hc, rfl⟩
    rw [line?_of_reads h hp, hl]
  have hname : d.textIn ⟨⟨p.line, a.length⟩, ⟨p.line, a.length + name.length⟩⟩ = name := by
    rw [hp]
    exact textIn_line h hl
  refine ⟨windowStart p + ((d.window p).take
    (Line.join (Line.nearest pre) ++ x).length).count (.char '\n'), ?_⟩
  rw [selectedParameter, hword, Option.bind_some]
  dsimp only
  rw [hname, hfind, Option.bind_some, htype, Option.map_some]

end Document

end CSharpActions
