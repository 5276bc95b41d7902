import CSharpActions.Proofs.Action.Repetition
import CSharpActions.Proofs.Action.Window

/-!
# Repeating an action at the moved cursor

After a member action, the cursor's word stands on the same line as before, which may have moved
down and may have another indentation. The declaration is the only new line that can come near it
from above; it has no parenthesis, so that the same signature is still the first one. The action of
the same kind is therefore offered again, and finds both of its fragments present.
-/
namespace CSharpActions

open Document (isIndent indentOf)
open Codegen (MemberKind)

namespace Document

variable {x s line : Text} {c : CodePoint}

theorem indentOf_append_of_head? (hs : s.head? = some c) (hc : isIndent c = false) (x : Text) :
    indentOf (x ++ s) = indentOf x ∧
      (x ++ s).dropWhile isIndent = x.dropWhile isIndent ++ s := by
  obtain ⟨r, rfl⟩ : ∃ r, s = c :: r := by
    cases s with
    | nil => simp at hs
    | cons d r =>
      obtain rfl := Option.some.inj hs
      exact ⟨r, rfl⟩
  rw [indentOf, indentOf]
  induction x with
  | nil => simp [hc]
  | cons d x ih =>
    by_cases hd : isIndent d = true
    · simpa [hd] using ih
    · simp [hd]

/-- A line with another indentation has the same parts behind it. -/
theorem eq_of_dropWhile_eq (hs : s.head? = some c) (hc : isIndent c = false)
    (h : line.dropWhile isIndent = (x ++ s).dropWhile isIndent) :
    line = (indentOf line ++ x.dropWhile isIndent) ++ s := by
  rw [List.append_assoc, ← (indentOf_append_of_head? hs hc x).2, ← h, indentOf_append_dropWhile]

theorem isWord_of_isIndent (h : isIndent c = true) : Text.isWord c = false := by
  rcases isIndent_iff.mp h with rfl | rfl <;> decide

theorem isIndent_of_isWord (h : Text.isWord c = true) : isIndent c = false := by
  by_contra hi
  rw [isWord_of_isIndent (by simpa using hi)] at h
  exact Bool.false_ne_true h

end Document

theorem Signature.Whole.exists_head? {t m n ps : Text} (h : Signature.Whole t m n ps) (y : Text) :
    ∃ c, (t ++ y).head? = some c ∧ isIndent c = false := by
  obtain ⟨n, ⟨hm, -, -, b, -, rfl⟩, -⟩ := h
  cases m with
  | nil => exact absurd hm Signature.not_isModifier_nil
  | cons c m =>
    refine ⟨c, rfl, ?_⟩
    by_contra hi
    have hl := Signature.isLetter_of_isIndent (c := c) (by simpa using hi)
    rw [Signature.isLetter_of_mem hm List.mem_cons_self] at hl
    exact Bool.false_ne_true hl.symm

section Restyle

variable {above above' : List Line} {line line' e type name a b : Text} {character : Int}

theorem Text.IsWordIn.restyle (h : Text.IsWordIn a name b) {ws : Text}
    (hws : ∀ c ∈ ws, isIndent c = true) (he : ∀ c, e.head? = some c → Text.isWord c = false) :
    Text.IsWordIn (ws ++ a.dropWhile isIndent) name (b ++ e) := by
  refine ⟨h.ne_nil, h.word, ?_, ?_⟩
  · intro c hc
    rw [List.getLast?_append] at hc
    cases hl : (a.dropWhile isIndent).getLast? with
    | none =>
      rw [hl, Option.none_or] at hc
      exact Document.isWord_of_isIndent (hws c (List.mem_of_getLast? hc))
    | some d =>
      rw [hl, Option.some_or] at hc
      refine h.left c ?_
      rw [← Document.indentOf_append_dropWhile a, List.getLast?_append, hl, Option.some_or, hc]
  · intro c hc
    cases b with
    | nil => exact he c hc
    | cons d b => exact h.right c hc

/-- What comes behind a line with a word on it does not change its indentation. -/
theorem Sees.indentOf_append (h : Sees above line character type name) (e : Text) :
    indentOf (line ++ e) = indentOf line := by
  obtain ⟨⟨a, b, rfl, hw, -⟩, -⟩ := h
  obtain ⟨c, w, rfl⟩ := List.exists_cons_of_ne_nil hw.ne_nil
  have hc : isIndent c = false := Document.isIndent_of_isWord (hw.word c List.mem_cons_self)
  rw [List.append_assoc, (Document.indentOf_append_of_head? rfl hc a).1,
    (Document.indentOf_append_of_head? rfl hc a).1]

/-- A cursor that moves along with the indentation of its line sees what it has seen before. -/
theorem Sees.restyle (h : Sees above line character type name) (hq : Line.Quiet above')
    (he : ∀ c, e.head? = some c → Text.isWord c = false)
    (hl : line'.dropWhile isIndent = (line ++ e).dropWhile isIndent) :
    Sees above' line' (character + ((indentOf line').length - (indentOf line).length)) type
      name := by
  have hws : ∀ c ∈ indentOf line', isIndent c = true := fun _ => Document.isIndent_of_mem_indentOf
  obtain ⟨⟨a, b, ha, hw, hc⟩, ⟨x, t, y, m, n, ps, hx, hwhole, hsilent, htype⟩, -⟩ := h
  refine ⟨?_, ?_, hq⟩
  · obtain ⟨c, w, hname⟩ := List.exists_cons_of_ne_nil hw.ne_nil
    have hci : isIndent c = false :=
      Document.isIndent_of_isWord (hw.word c (by simp [hname]))
    have hhead : ∀ r, (name ++ r).head? = some c := by simp [hname]
    have hi : indentOf line = indentOf a := by
      rw [ha]
      exact (Document.indentOf_append_of_head? (hhead b) hci a).1
    have ha' : line ++ e = a ++ (name ++ (b ++ e)) := by simp [ha]
    rw [ha'] at hl
    have hline := Document.eq_of_dropWhile_eq (hhead (b ++ e)) hci hl
    refine ⟨indentOf line' ++ a.dropWhile isIndent, b ++ e, hline, hw.restyle hws he, ?_⟩
    have hlen := congrArg List.length (Document.indentOf_append_dropWhile a)
    rw [List.length_append] at hlen ⊢
    rw [hi]
    omega
  · obtain ⟨c, hhead, hci⟩ := hwhole.exists_head? (y ++ e)
    have hx' : line ++ e = x ++ (t ++ (y ++ e)) := by simp [hx]
    rw [hx'] at hl
    refine ⟨indentOf line' ++ x.dropWhile isIndent, t, y ++ e, m, n, ps,
      Document.eq_of_dropWhile_eq hhead hci hl, hwhole, ?_, htype⟩
    rw [Signature.silent_indent_append hws]
    rw [← Document.indentOf_append_dropWhile x, Signature.silent_indent_append
      fun _ => Document.isIndent_of_mem_indentOf] at hsilent
    exact hsilent

end Restyle

namespace Line

variable {l : Line} {ls ks : List Line}

theorem nearest_append (ks : List Line) (h : 2 ≤ ls.length) : nearest (ks ++ ls) = nearest ls := by
  rw [nearest, nearest, List.length_append, Nat.add_sub_assoc h, List.drop_length_add_append]

theorem quiet_nearest_congr (h : ks.map unindented = ls.map unindented)
    (hq : Quiet (nearest ls)) : Quiet (nearest ks) := by
  have hmap : ∀ x : List Line, (nearest x).map unindented = nearest (x.map unindented) := by
    intro x
    rw [nearest, nearest, List.map_drop, List.length_map]
  rw [← quiet_map_unindented, hmap, h, ← hmap]
  exact (quiet_map_unindented _).mpr hq

/-- The lines nearest to the cursor stay quiet when a line without a parenthesis comes above it. -/
theorem quiet_nearest_insert (h : Quiet (nearest (ks ++ ls))) (hd : ¬l.Dangles)
    (hp : CodePoint.char '(' ∉ l.content) : Quiet (nearest (ks ++ l :: ls)) := by
  by_cases hl : 2 ≤ ls.length
  · rw [nearest_append ks hl] at h
    rwa [List.append_cons, nearest_append _ hl]
  · -- the new line is one of the nearest, or the lowest line but one that was
    have hn : nearest (ks ++ ls) = ks.drop (ks.length + ls.length - 2) ++ ls := by
      rw [nearest, List.length_append, List.drop_append_of_le_length (by omega)]
    rw [hn] at h
    have hs : ks.drop (ks.length + ls.length - 2) ++ l :: ls <:+ ks ++ l :: ls :=
      List.suffix_append_self_iff.mpr (List.drop_suffix _ _)
    refine (h.insert hd hp).of_suffix
      (List.suffix_of_suffix_length_le (List.drop_suffix _ _) hs ?_)
    · simp only [nearest, List.length_drop, List.length_append, List.length_cons]
      omega

theorem exists_of_map_eq {f : Line → Line} (h : ks.map f = ls.map f) {i : Nat}
    (hl : ls[i]? = some l) : ∃ k, ks[i]? = some k ∧ f k = f l := by
  have hi := congrArg (·[i]?) h
  simp only [List.getElem?_map, hl, Option.map_some] at hi
  exact Option.map_eq_some_iff.mp hi

end Line

namespace MemberPlan

open Line (unindented insertAbove)
open Plan (missing)

variable {d : Document} {plan : MemberPlan} {l : Line} {pre post ms : List Line}

theorem quiet_nearest_missing {f : Text} (hq : Line.Quiet (Line.nearest pre))
    (hl : ∃ l, Line.ofFragment f = [l] ∧ ¬l.Dangles ∧ CodePoint.char '(' ∉ l.content)
    (t : Text) (c : Nat) :
    Line.Quiet (Line.nearest (pre.take c ++ (missing t f ++ pre.drop c))) := by
  rw [missing]
  split
  · rwa [List.nil_append, List.take_append_drop]
  · obtain ⟨l, hl, hd, hp⟩ := hl
    rw [← List.take_append_drop c pre] at hq
    rw [hl]
    exact Line.quiet_nearest_insert hq hd hp

theorem isWord_head_missing {t f e : Text} (he : e = [] ∨ ∃ k, (missing t f).head? = some k ∧
      e = k.content)
    (hl : ∃ l, Line.ofFragment f = [l] ∧ ∀ c, l.content.head? = some c → Text.isWord c = false) :
    ∀ c, e.head? = some c → Text.isWord c = false := by
  obtain ⟨l, hf, hl⟩ := hl
  rcases he with rfl | ⟨k, hk, rfl⟩
  · simp
  · rw [missing, hf] at hk
    split at hk
    · simp at hk
    · obtain rfl := Option.some.inj hk
      exact hl

/-- What becomes of the cursor's line, of the lines above it and of the line with the brace before
the lines are indented. -/
theorem exists_line_after {c b : Nat} (hc : plan.constructorStart = ⟨c, 0⟩)
    (hb : plan.bodyStart = ⟨b + 1, 0⟩) (hd : Line.Reads d.text (pre ++ l :: post))
    (hcn : c ≤ pre.length) (hnb : pre.length ≤ b) {brace : Text}
    (hbrace : d.lines[b]? = some brace) :
    (Plan.linesAfter d (.member plan)).take
        (pre.length + (missing d.text plan.member.declaration).length) =
      pre.take c ++ (missing d.text plan.member.declaration ++ pre.drop c) ∧
    (∃ k e, (Plan.linesAfter d (.member plan))[pre.length +
        (missing d.text plan.member.declaration).length]? = some k ∧ k.content = l.content ++ e ∧
      (e = [] ∨ ∃ m, (missing d.text plan.member.assignment).head? = some m ∧ e = m.content)) ∧
    ∃ k, (Plan.linesAfter d (.member plan))[b +
        (missing d.text plan.member.declaration).length]? = some k ∧ brace <+: k.content := by
  have hb' : ((b : Int) + 1).toNat = b + 1 := rfl
  simp only [Plan.linesAfter, hc, hb, hb', Int.toNat_natCast, hd.read_eq]
  generalize missing d.text plan.member.declaration = new
  generalize missing d.text plan.member.assignment = below
  have hlen : (pre ++ l :: post).length = pre.length + (post.length + 1) := by simp
  have hlen' : c < (insertAbove (b + 1) below (pre ++ l :: post)).length := by
    rw [Line.length_insertAbove (by simp), hlen]
    omega
  refine ⟨?_, ?_, ?_⟩
  · have ht : (insertAbove (b + 1) below (pre ++ l :: post)).take pre.length = pre := by
      rw [Line.take_insertAbove below (by omega) (by omega), List.take_left]
    have ht' := congrArg (List.take c) ht
    rw [List.take_take, min_eq_left hcn] at ht'
    rw [Line.take_insertAbove_of_le new hcn hlen', ht, ht']
  · have hl : (pre ++ l :: post)[pre.length]? = some l := by simp
    obtain ⟨k, hk, hcases⟩ := Line.getElem?_insertAbove_of_lt below (n := b + 1) (by omega) hl
    rw [Line.getElem?_insertAbove_of_le new hcn hlen']
    rcases hcases with rfl | ⟨m, hm, he⟩
    · exact ⟨k, [], hk, (List.append_nil _).symm, Or.inl rfl⟩
    · exact ⟨k, m.content, hk, he, Or.inr ⟨m, hm, rfl⟩⟩
  · rw [Document.lines_eq hd, List.getElem?_map, Option.map_eq_some_iff] at hbrace
    obtain ⟨x, hx, rfl⟩ := hbrace
    obtain ⟨k, hk, hcases⟩ := Line.getElem?_insertAbove_of_lt below (n := b + 1) (by omega) hx
    rw [Line.getElem?_insertAbove_of_le new (by omega) hlen']
    rcases hcases with rfl | ⟨m, -, he⟩
    · exact ⟨k, hk, List.prefix_rfl⟩
    · exact ⟨k, hk, ⟨m.content, he.symm⟩⟩

/-- Where the cursor's line and the line with the brace are found again. -/
theorem exists_moved_line (plan : MemberPlan) {c b : Nat} (hc : plan.constructorStart = ⟨c, 0⟩)
    (hb : plan.bodyStart = ⟨b + 1, 0⟩) (hd : Line.Reads d.text (pre ++ l :: post))
    (hcn : c ≤ pre.length) (hnb : pre.length ≤ b) {brace : Text}
    (hbrace : d.lines[b]? = some brace) (hm : CodePoint.char '{' ∈ brace)
    (hu : ms.map unindented = (Plan.linesAfter d (.member plan)).map unindented) :
    ∃ pre' l' post' e, ms = pre' ++ l' :: post' ∧
      pre'.length = pre.length + (missing d.text plan.member.declaration).length ∧
      pre'.map unindented =
        (pre.take c ++ (missing d.text plan.member.declaration ++ pre.drop c)).map unindented ∧
      l'.content.dropWhile isIndent = (l.content ++ e).dropWhile isIndent ∧
      (ms = Plan.linesAfter d (.member plan) → l'.content = l.content ++ e) ∧
      (e = [] ∨ ∃ k, (missing d.text plan.member.assignment).head? = some k ∧ e = k.content) ∧
      ∃ k, ms[b + (missing d.text plan.member.declaration).length]? = some k ∧
        CodePoint.char '{' ∈ k.content := by
  obtain ⟨ht, ⟨k, e, hk, hke, he⟩, x, hx, hprefix⟩ :=
    exists_line_after hc hb hd hcn hnb hbrace
  obtain ⟨l', hl', hlu⟩ := Line.exists_of_map_eq hu hk
  obtain ⟨x', hx', hxu⟩ := Line.exists_of_map_eq hu hx
  obtain ⟨hsplit, hlen⟩ := Line.split_of_getElem? hl'
  refine ⟨_, l', _, e, hsplit, hlen, ?_, ?_, ?_, he, x', hx', ?_⟩
  · rw [List.map_take, hu, ← List.map_take, ht]
  · rw [← hke]
    exact congrArg Line.content hlu
  · intro hms
    rw [hms, hk, Option.some.injEq] at hl'
    rw [← hl', hke]
  · rw [← Line.mem_unindented_content (by decide), hxu, Line.mem_unindented_content (by decide)]
    exact hprefix.subset hm

end MemberPlan

namespace Codegen

variable {s : Settings} {style : Style} {kind : MemberKind} {type parameter : Text}

/-- A declaration can come between lines that are searched for a signature. -/
theorem exists_declaration_line (kind : MemberKind) (hs : style.IsProper s)
    (hf : ∀ c ∈ s.privatePrefix, Text.isWord c = true)
    (hp : ∀ c ∈ parameter, Text.isWord c = true) (htn : CodePoint.char '\n' ∉ type)
    (hto : CodePoint.char '(' ∉ type) :
    ∃ l, Line.ofFragment (generateMember kind type parameter s style).declaration = [l] ∧
      ¬l.Dangles ∧ CodePoint.char '(' ∉ l.content := by
  have hplain := plain_declaration kind hs (Text.not_mem_of_forall hf (by decide)) htn
    (Text.not_mem_of_forall hp (by decide))
  have hd : CodePoint.char '(' ∉ memberDeclaration kind type (memberName kind s parameter) :=
    not_mem_memberDeclaration (by cases kind <;> decide) hto
      (not_mem_memberName (by decide) (Text.not_mem_of_forall hf (by decide))
        (Text.not_mem_of_forall hp (by decide)))
  have hi : CodePoint.char '(' ∉ style.memberIndent s :=
    Text.not_mem_of_forall hs.memberIndent (by decide)
  refine ⟨_, Line.ofFragment_text (Line.inner_of_plain hplain hs.eol), ?_, by simp [hi, hd]⟩
  -- a declaration ends in a semicolon or a brace
  rintro ⟨-, w, hw, hm⟩
  have hlast : ∀ c, Signature.isLetter c = false →
      (memberDeclaration kind type (memberName kind s parameter)).getLast? = some c → False := by
    intro c hc hl
    obtain ⟨r, hr⟩ := List.getLast?_eq_some_iff.mp hl
    dsimp only at hw
    rw [hr, ← List.append_assoc] at hw
    exact Signature.not_dangles_concat hc ⟨w, hw, hm⟩
  rcases getLast?_memberDeclaration kind type (memberName kind s parameter) with h | h
  · exact hlast _ (by decide) h
  · exact hlast _ (by decide) h

/-- An assignment is indented. -/
theorem exists_assignment_line (kind : MemberKind) (type : Text) (hs : style.IsProper s)
    (hstep : style.step s ≠ [])
    (hf : CodePoint.char '\n' ∉ s.privatePrefix) (hp : CodePoint.char '\n' ∉ parameter) :
    ∃ l, Line.ofFragment (generateMember kind type parameter s style).assignment = [l] ∧
      ∀ c, l.content.head? = some c → Text.isWord c = false := by
  refine ⟨_, Line.ofFragment_text (Line.inner_of_plain (plain_assignment kind hs hf hp) hs.eol), ?_⟩
  intro c hc
  have hne : style.bodyIndent s ≠ [] := by simp [Style.bodyIndent, hstep]
  have hm : c ∈ style.bodyIndent s := by
    obtain ⟨x, r, hr⟩ := List.exists_cons_of_ne_nil hne
    dsimp only at hc
    rw [hr, List.cons_append, List.head?_cons, Option.some.injEq] at hc
    simp [hr, hc]
  exact Document.isWord_of_isIndent (hs.bodyIndent c hm)

end Codegen

namespace Document

/-- The indentation of a line, if the document has it. -/
def indentAt (d : Document) (n : Int) : Text := indentOf ((d.line? n).getD [])

variable {d d' : Document} {p : Position} {s : Settings} {l : Line} {pre post : List Line}

theorem indentAt_eq (h : Line.Reads d.text (pre ++ l :: post)) (hp : p.line = pre.length) :
    d.indentAt p.line = indentOf l.content := by
  rw [indentAt, line?_of_reads h hp, Option.getD_some]

theorem memberActions_eq {selected : Selected} {body : Position}
    (hs : d.selectedParameter p = some selected) (hb : d.bodyStart p = some body) :
    d.memberActions p s = MemberKind.all.map fun kind =>
      ⟨kind.title, Action.memberCommand, .member (d.memberPlan p s selected body kind), d⟩ := by
  rw [memberActions, hs, hb]
  rfl

end Document

/-- Where the word at a position is found after a plan has turned the first document into the
second: below the declaration if that was missing, and as far from the indentation as before. -/
def MemberPlan.cursorAfter (plan : MemberPlan) (d d' : Document) (p : Position) : Position :=
  let line := p.line + if Action.present d.text plan.member.declaration then 0 else 1
  ⟨line, p.character + ((d'.indentAt line).length - (d.indentAt p.line).length)⟩

theorem MemberPlan.length_missing {d : Document} {plan : MemberPlan} (h : plan.Fits d) :
    ((Plan.missing d.text plan.member.declaration).length : Int) =
      if Action.present d.text plan.member.declaration then 0 else 1 := by
  rw [Plan.missing]
  split
  · rfl
  · rw [h.declaration.length_ofFragment]
    rfl

section Again

variable {d d' : Document} {p : Position} {s : Settings} {selected : Document.Selected}
  {body : Position} {kind : MemberKind} {ms : List Line}

theorem not_mem_type_of_sees {above : List Line} {line type name : Text} {character : Int}
    (h : Sees above line character type name) : CodePoint.char '(' ∉ type := by
  obtain ⟨-, ⟨x, t, y, m, n, ps, -, ⟨-, -, hclose, -⟩, -, htype⟩, -⟩ := h
  exact (Parameter.not_mem_type htype).2 hclose

theorem isWord_of_sees {above : List Line} {line type name : Text} {character : Int}
    (h : Sees above line character type name) : ∀ c ∈ name, Text.isWord c = true := by
  obtain ⟨⟨a, b, -, hw, -⟩, -⟩ := h
  exact hw.word

theorem step_styleAt_ne_nil (ht : 1 ≤ s.tabSize) (d : Document) (n : Nat) :
    (d.styleAt s n).step s ≠ [] := (Layout.isUnit_unitFor ht d.lines).ne_nil

/-- At the moved cursor the same parameter is selected, and a body is found. -/
theorem selected_again (ht : 1 ≤ s.tabSize) (hf : ∀ c ∈ s.privatePrefix, Text.isWord c = true)
    (hon : d.SignatureOnLine p) (hs : d.selectedParameter p = some selected)
    (hb : d.bodyStart p = some body) (hr : Line.Reads d'.text ms)
    (hu : ms.map Line.unindented = (Plan.linesAfter d
      (.member (d.memberPlan p s selected body kind))).map Line.unindented) :
    (∃ n, d'.selectedParameter ((d.memberPlan p s selected body kind).cursorAfter d d' p) =
        some ⟨selected.type, selected.name, n⟩) ∧
      (d'.bodyStart ((d.memberPlan p s selected body kind).cursorAfter d d' p)).isSome ∧
      (ms = Plan.linesAfter d (.member (d.memberPlan p s selected body kind)) →
        ((d.memberPlan p s selected body kind).cursorAfter d d' p).character = p.character) := by
  have hfn : CodePoint.char '\n' ∉ s.privatePrefix := Text.not_mem_of_forall hf (by decide)
  have hmiss := MemberPlan.length_missing (Document.memberPlan_fits kind hfn hs hb)
  obtain ⟨pre, l, post, hd, hp, hsees⟩ := Document.sees_of_selectedParameter hon hs
  obtain ⟨c, hcn, hstart⟩ := Document.exists_memberStart d hp
  obtain ⟨j, hj, hbody, brace, hbrace, hm⟩ := Document.exists_of_bodyStart hp hb
  obtain ⟨pre', l', post', e, rfl, hlen, hpre, hl, hsame, he, k, hk, hkm⟩ :=
    MemberPlan.exists_moved_line (d.memberPlan p s selected body kind) hstart hbody hd hcn
      (by omega) hbrace hm hu
  have hline : ((d.memberPlan p s selected body kind).cursorAfter d d' p).line = pre'.length := by
    rw [MemberPlan.cursorAfter, hp, ← hmiss, hlen, Int.natCast_add]
  have hcharacter : ((d.memberPlan p s selected body kind).cursorAfter d d' p).character =
      p.character + ((indentOf l'.content).length - (indentOf l.content).length) := by
    rw [← Document.indentAt_eq hr hline, ← Document.indentAt_eq hd hp]
    rfl
  have hproper := Document.isProper_styleAt d s selected.signatureLine
  obtain ⟨hname, htype⟩ := Document.not_mem_selected hs
  have hquiet : Line.Quiet (Line.nearest pre') :=
    Line.quiet_nearest_congr hpre (MemberPlan.quiet_nearest_missing hsees.quiet
      (Codegen.exists_declaration_line kind hproper hf (isWord_of_sees hsees) htype
        (not_mem_type_of_sees hsees)) d.text c)
  have hhead : ∀ x, e.head? = some x → Text.isWord x = false :=
    MemberPlan.isWord_head_missing he (Codegen.exists_assignment_line kind selected.type hproper
      (step_styleAt_ne_nil ht d _) hfn hname)
  have hagain := hsees.restyle hquiet hhead hl
  rw [← hcharacter] at hagain
  refine ⟨Document.selectedParameter_of_sees hr hline hagain, ?_, ?_⟩
  · have hlines : d'.lines[pre'.length + j]? = some k.content := by
      rw [Document.lines_eq hr, List.getElem?_map, hlen, Nat.add_right_comm, hk, Option.map_some]
    exact Document.isSome_bodyStart hline hj hlines hkm
  · intro hms
    rw [hcharacter, hsame hms, hsees.indentOf_append]
    omega

/-- Members of one kind for one parameter are present together, whatever their styles are. -/
theorem Action.present_memberFragments {t : Text} (d' : Document) (q : Position) (n : Nat)
    (body' : Position)
    (h : ∀ f ∈ memberFragments (d.memberPlan p s selected body kind), present t f.2 = true) :
    ∀ f ∈ memberFragments (d'.memberPlan q s ⟨selected.type, selected.name, n⟩ body' kind),
      present t f.2 = true := by
  obtain ⟨hd, ha⟩ := Codegen.trim_generateMember kind selected.type selected.name
    (Document.isProper_styleAt d s selected.signatureLine)
  obtain ⟨hd', ha'⟩ := Codegen.trim_generateMember kind selected.type selected.name
    (Document.isProper_styleAt d' s n)
  simp only [memberFragments, List.forall_mem_cons, present] at h ⊢
  obtain ⟨h₁, h₂, -⟩ := h
  refine ⟨?_, ?_, by simp⟩
  · exact (congrArg (Text.occursIn · t) (hd'.trans hd.symm)).trans h₁
  · exact (congrArg (Text.occursIn · t) (ha'.trans ha.symm)).trans h₂

end Again

namespace Action

/-- The plans for members among those of the actions. -/
def memberPlans (actions : List Action) : List MemberPlan :=
  actions.filterMap fun a =>
    match a.plan with
    | .member plan => some plan
    | .constructor _ => none

variable {d : Document} {p : Position} {s : Settings}

theorem mem_memberActions_of_plan {a : Action} {plan : MemberPlan} (h : a ∈ d.actionsAt p s)
    (hp : a.plan = .member plan) : a ∈ d.memberActions p s := by
  rcases List.mem_append.mp h with h | h
  · exact h
  · obtain ⟨_, rfl, -⟩ := Document.mem_constructorAction (Option.mem_toList.mp h)
    simp at hp

theorem memberPlans_actionsAt {selected : Document.Selected} {body : Position}
    (hs : d.selectedParameter p = some selected) (hb : d.bodyStart p = some body) :
    memberPlans (d.actionsAt p s) = MemberKind.all.map (d.memberPlan p s selected body) := by
  have hc : (d.constructorAction p s).toList.filterMap (fun a =>
      match a.plan with
      | .member plan => some plan
      | .constructor _ => none) = [] := by
    cases hc : d.constructorAction p s with
    | none => rfl
    | some a =>
      obtain ⟨_, rfl, -⟩ := Document.mem_constructorAction hc
      rfl
  rw [memberPlans, Document.actionsAt, Document.memberActions_eq hs hb, List.filterMap_append, hc]
  rfl

/-- A member action that is repeated at the moved cursor is offered again with the two others, for
the same parameter, and commits nothing. -/
theorem execute_again_changes_nothing (d : Document) (p : Position) (s : Settings) (host : Host)
    (a : Action) (plan : MemberPlan) (hk : 1 ≤ host.settings.tabSize) (ht : 1 ≤ s.tabSize)
    (hf : ∀ c ∈ s.privatePrefix, Text.isWord c = true) (hon : d.SignatureOnLine p)
    (h : a ∈ d.actionsAt p s) (hp : a.plan = .member plan) :
    ∃ applied q, (a.execute host (memorySink none) {}).result = .ok applied ∧
      q = plan.cursorAfter d applied.document p ∧
      (host.lays = false → q.character = p.character) ∧
      (memberPlans (applied.document.actionsAt q s)).map
          (fun again => (again.member.kind, again.parameterType, again.parameterName)) =
        MemberKind.all.map (fun kind => (kind, plan.parameterType, plan.parameterName)) ∧
      ∀ b ∈ applied.document.actionsAt q s, ∀ again, b.plan = .member again →
        again.member.kind = plan.member.kind → ∀ {σ : Type} (sink : Sink σ) (m : σ),
          ∃ applied', (b.execute host sink m).result = .ok applied' ∧ applied'.edits = [] ∧
            applied'.formatEdits = [] ∧ applied'.document = applied.document ∧
            (b.execute host sink m).sink = m := by
  obtain ⟨selected, body, kind, hs, hb, rfl⟩ :=
    Document.mem_memberActions (mem_memberActions_of_plan h hp)
  obtain rfl := Plan.member.inj hp
  have hfn : CodePoint.char '\n' ∉ s.privatePrefix := Text.not_mem_of_forall hf (by decide)
  have hfits := Document.memberPlan_fits kind hfn hs hb
  obtain ⟨applied, ms, done⟩ := exists_carried
    (a := ⟨kind.title, memberCommand, .member (d.memberPlan p s selected body kind), d⟩)
    hk rfl hfits
  have hu := done.finishes.unindented_eq
  obtain ⟨⟨n, hs'⟩, hbody, hcharacter⟩ := selected_again ht hf hon hs hb done.reads hu
  obtain ⟨body', hb'⟩ := Option.isSome_iff_exists.mp hbody
  refine ⟨applied, _, done.result, rfl, ?_, ?_, ?_⟩
  · intro hlays
    exact hcharacter (done.finishes.eq_of_not_lays hlays)
  · rw [memberPlans_actionsAt hs' hb', List.map_map]
    rfl
  · intro b hb again hplan hkind σ sink m
    obtain ⟨selected', body', kind', hs₂, -, rfl⟩ :=
      Document.mem_memberActions (mem_memberActions_of_plan hb hplan)
    obtain rfl := Option.some.inj (hs'.symm.trans hs₂)
    obtain rfl := Plan.member.inj hplan
    obtain rfl : kind' = kind := hkind
    have hpresent := Action.present_memberFragments applied.document
      ((d.memberPlan p s selected body kind').cursorAfter d applied.document p) n body'
      fun f hm => present_of_linesAfter hfits done.reads hu hm
    obtain ⟨hresult, hsink⟩ := execute_of_nil host
      (a := ⟨kind'.title, memberCommand, .member (applied.document.memberPlan _ s _ body' kind'),
        applied.document⟩) rfl (memberEdits_eq_nil hpresent) sink m
    exact ⟨_, hresult, memberEdits_eq_nil hpresent, rfl, rfl, hsink⟩

/-- The declaration comes directly above the cursor's line, which moves down. -/
theorem execute_again_changes_nothing_below_declaration :
    ∃ d : Document, d = { text := "public class A\n\x7b\npublic A(int x)\n\x7b\n\x7d\n\x7d" } ∧
      (1 : Int) ≤ ({} : Host).settings.tabSize ∧ (1 : Int) ≤ ({} : Settings).tabSize ∧
      (∀ c ∈ ({} : Settings).privatePrefix, Text.isWord c = true) ∧ d.SignatureOnLine ⟨2, 13⟩ ∧
      ∃ a ∈ d.actionsAt ⟨2, 13⟩ {}, ∃ plan, a.plan = .member plan ∧
        (a.plan.linesAfter d)[2]? = some ⟨"private readonly int x;", ['\n']⟩ ∧
        ∃ applied q, (a.execute {} (memorySink none) {}).result = .ok applied ∧
          q = plan.cursorAfter d applied.document ⟨2, 13⟩ ∧
          (({} : Host).lays = false → q.character = 13) ∧
          (memberPlans (applied.document.actionsAt q {})).map
              (fun again => (again.member.kind, again.parameterType, again.parameterName)) =
            MemberKind.all.map (fun kind => (kind, plan.parameterType, plan.parameterName)) ∧
          ∀ b ∈ applied.document.actionsAt q {}, ∀ again, b.plan = .member again →
            again.member.kind = plan.member.kind → ∀ {σ : Type} (sink : Sink σ) (m : σ),
              ∃ applied', (b.execute {} sink m).result = .ok applied' ∧ applied'.edits = [] ∧
                applied'.formatEdits = [] ∧ applied'.document = applied.document ∧
                (b.execute {} sink m).sink = m := by
  have hon : Document.SignatureOnLine
      { text := "public class A\n\x7b\npublic A(int x)\n\x7b\n\x7d\n\x7d" } ⟨2, 13⟩ := by
    refine ⟨⟨"public", "A", "int x", 17⟩, "public A(int x)", 0, ?_⟩
    decide +kernel
  obtain ⟨a, ha, hcommand, hl⟩ : ∃ a ∈ Document.actionsAt
      { text := "public class A\n\x7b\npublic A(int x)\n\x7b\n\x7d\n\x7d" } ⟨2, 13⟩ {},
      a.plan.command = memberCommand ∧ (a.plan.linesAfter
        { text := "public class A\n\x7b\npublic A(int x)\n\x7b\n\x7d\n\x7d" })[2]? =
          some ⟨"private readonly int x;", ['\n']⟩ := by
    decide +kernel
  cases hp : a.plan with
  | constructor plan =>
    have hc : constructorCommand ≠ memberCommand := by decide
    rw [hp] at hcommand
    exact absurd hcommand hc
  | member plan =>
    exact ⟨_, rfl, by decide, by decide, by decide, hon, a, ha, plan, hp, hl,
      execute_again_changes_nothing _ _ {} {} a plan (by decide) (by decide) (by decide) hon ha hp⟩

end Action

end CSharpActions
