import CSharpActions.Proofs.Action.Execution

/-!
# Carrying out a plan twice

A fragment of one line stands in a text exactly if it stands on a line, behind its indentation. No
insertion takes it away from there and no change of the indentation touches it. Once a member plan
has been carried out, both of its fragments are therefore present.
-/
namespace CSharpActions

namespace Line

open Document (isIndent indentOf)

/-- A text that can only stand inside of a line and behind its indentation. -/
structure IsCore (f : Text) : Prop where
  ne_nil : f ≠ []
  no_feed : CodePoint.char '\n' ∉ f
  head : ∀ c, f.head? = some c → isIndent c = false
  last : f.getLast? ≠ some (.char '\r')

/-- One of the lines has the text in it. -/
def Holds (f : Text) (ls : List Line) : Prop := ∃ l ∈ ls, f <:+: l.content

variable {f t : Text} {l : Line} {n : Nat} {new ls ms : List Line}

theorem isCore_trim (hn : CodePoint.char '\n' ∉ t) {c : CodePoint} (hc : c ∈ t)
    (hb : Text.isBlank c = false) : IsCore (Text.trim t) where
  ne_nil h := by
    have := Text.trim_eq_nil_iff.mp h c hc
    simp [hb] at this
  no_feed hm := hn ((Text.trim_infix t).subset hm)
  head x hx := by
    have hx := Text.isBlank_of_head?_trim hx
    by_contra hi
    rw [Document.isBlank_of_isIndent (by simpa using hi)] at hx
    exact Bool.false_ne_true hx.symm
  last hl := by
    have := Text.isBlank_of_getLast?_trim hl
    exact absurd this (by decide)

theorem infix_text_append_iff (hf : IsCore f) (hl : l.Inner) :
    f <:+: l.text ++ t ↔ f <:+: l.content ∨ f <:+: t := by
  obtain ⟨-, he | ⟨he, -⟩⟩ := hl
  · have hr := Text.infix_concat_iff_of_getLast? (a := l.content) hf.ne_nil hf.last
    rw [text, he, ← hr, ← Text.infix_append_cons_iff hf.no_feed]
    simp
  · rw [text, he, ← Text.infix_append_cons_iff hf.no_feed]
    simp

theorem infix_text_iff_of_final (hf : IsCore f) (hl : l.Final) :
    f <:+: l.text ↔ f <:+: l.content := by
  obtain ⟨-, he | ⟨he, -⟩⟩ := hl
  · rw [text, he, Text.infix_concat_iff_of_getLast? hf.ne_nil hf.last]
  · rw [text, he, List.append_nil]

theorem infix_iff_holds (hf : IsCore f) (h : Reads t ls) : f <:+: t ↔ Holds f ls := by
  induction h with
  | last ends => simp [infix_text_iff_of_final hf ends, Holds]
  | cons ends _ ih => simp [infix_text_append_iff hf ends, ih, Holds]

theorem infix_content_iff (hf : IsCore f) (l : Line) :
    f <:+: l.content ↔ f <:+: l.unindented.content := by
  conv_lhs => rw [← Document.indentOf_append_dropWhile l.content]
  exact Text.infix_append_iff_of_head? hf.ne_nil hf.head fun _ => Document.isIndent_of_mem_indentOf

theorem holds_map_unindented (hf : IsCore f) (ls : List Line) :
    Holds f (ls.map unindented) ↔ Holds f ls := by
  constructor
  · rintro ⟨k, hk, h⟩
    obtain ⟨l, hl, rfl⟩ := List.mem_map.mp hk
    exact ⟨l, hl, (infix_content_iff hf l).mpr h⟩
  · rintro ⟨l, hl, h⟩
    exact ⟨l.unindented, List.mem_map_of_mem hl, (infix_content_iff hf l).mp h⟩

/-- Whether a line has the text does not depend on the indentation. -/
theorem Holds.of_unindented_eq (hf : IsCore f) (he : ls.map unindented = ms.map unindented)
    (h : Holds f ls) : Holds f ms := by
  rw [← holds_map_unindented hf, ← he]
  exact (holds_map_unindented hf ls).mpr h

theorem infix_content_atEnd (new : List Line) (l : Line) :
    (∃ k ∈ atEnd new [l], l.content <:+: k.content) ∧
      ∀ m ∈ new, ∃ k ∈ atEnd new [l], m.content <:+: k.content := by
  cases new with
  | nil => exact ⟨⟨l, by simp [atEnd], List.infix_rfl⟩, by simp⟩
  | cons n r =>
    refine ⟨⟨_, List.mem_cons_self, List.infix_append_left⟩, ?_⟩
    intro m hm
    rcases List.mem_cons.mp hm with rfl | hm
    · exact ⟨_, List.mem_cons_self, List.infix_append_right⟩
    · exact ⟨m, by simp [atEnd, hm], List.infix_rfl⟩

/-- An insertion leaves what stands on a line, and brings in what stands on the new lines. -/
theorem holds_insertAbove (hne : ls ≠ []) (n : Nat) (h : Holds f ls ∨ Holds f new) :
    Holds f (insertAbove n new ls) := by
  rcases exists_split hne n with ⟨pre, l, post, rfl, rfl⟩ | ⟨pre, l, rfl, hn⟩
  · rw [insertAbove_inside]
    simp only [Holds, List.mem_append] at h ⊢
    rcases h with ⟨k, hk | hk, hf⟩ | ⟨k, hk, hf⟩
    · exact ⟨k, Or.inl hk, hf⟩
    · exact ⟨k, Or.inr (Or.inr hk), hf⟩
    · exact ⟨k, Or.inr (Or.inl hk), hf⟩
  · obtain ⟨⟨x, hx, hlx⟩, hnew⟩ := infix_content_atEnd new l
    rw [insertAbove_past new l hn]
    simp only [Holds, List.mem_append, List.mem_singleton] at h ⊢
    rcases h with ⟨k, hk | rfl, hf⟩ | ⟨k, hk, hf⟩
    · exact ⟨k, Or.inl hk, hf⟩
    · exact ⟨x, Or.inr hx, hf.trans hlx⟩
    · obtain ⟨x, hx, hkx⟩ := hnew k hk
      exact ⟨x, Or.inr hx, hf.trans hkx⟩

theorem holds_insertAll (hne : ls ≠ []) {fragments : List (Nat × Text)}
    (h : Holds f ls ∨ ∃ g ∈ fragments, Holds f (ofFragment g.2)) :
    Holds f (insertAll fragments ls) := by
  induction fragments with
  | nil => simpa [insertAll] using h
  | cons g fragments ih =>
    refine holds_insertAbove (insertAll_ne_nil hne fragments) g.1 ?_
    rcases h with h | ⟨x, hx, h⟩
    · exact Or.inl (ih (Or.inl h))
    · rcases List.mem_cons.mp hx with rfl | hx
      · exact Or.inr h
      · exact Or.inl (ih (Or.inr ⟨x, hx, h⟩))

theorem isBlank_of_mem_ending (h : l.Inner) {c : CodePoint} (hc : c ∈ l.ending) :
    Text.isBlank c = true := by
  rcases h.2 with he | ⟨he, -⟩
  · rw [he] at hc
    rcases List.mem_cons.mp hc with rfl | hc
    · decide
    · rw [List.mem_singleton.mp hc]
      decide
  · rw [he] at hc
    rw [List.mem_singleton.mp hc]
    decide

/-- What is looked for of a fragment stands on its line. -/
theorem IsOneLine.isCore (h : IsOneLine t) :
    IsCore (Text.trim t) ∧ Holds (Text.trim t) (ofFragment t) := by
  obtain ⟨l, rfl, hi, c, hc, hb⟩ := h
  have ht : Text.trim l.text = Text.trim l.content :=
    Text.trim_append_blank fun _ => isBlank_of_mem_ending hi
  rw [ht, ofFragment_text hi]
  exact ⟨isCore_trim hi.1 hc hb, l, List.mem_singleton_self l, Text.trim_infix l.content⟩

end Line

namespace Action

open Line (unindented)

variable {d : Document} {plan : MemberPlan} {t : Text} {ms : List Line}

theorem present_iff_holds {f : Text} (hf : Line.IsOneLine f) (h : Line.Reads t ms) :
    present t f = true ↔ Line.Holds (Text.trim f) ms := by
  rw [present, Text.occursIn_iff_infix, Line.infix_iff_holds hf.isCore.1 h]

/-- Both fragments are present where a plan has brought in those that were missing. -/
theorem present_of_linesAfter (hfits : plan.Fits d) (h : Line.Reads t ms)
    (hu : ms.map unindented = (Plan.linesAfter d (.member plan)).map unindented)
    {f : Position × Text} (hm : f ∈ memberFragments plan) : present t f.2 = true := by
  have hr := Line.reads_read d.text
  have hone : Line.IsOneLine f.2 := by
    rcases List.mem_cons.mp hm with rfl | hm
    · exact hfits.declaration
    · rw [List.mem_singleton.mp hm]
      exact hfits.assignment
  obtain ⟨hcore, hline⟩ := hone.isCore
  rw [Plan.linesAfter_eq] at hu
  rw [present_iff_holds hone h]
  refine Line.Holds.of_unindented_eq hcore hu.symm (Line.holds_insertAll hr.ne_nil ?_)
  by_cases hp : present d.text f.2 = true
  · exact Or.inl ((present_iff_holds hone hr).mp hp)
  · refine Or.inr ⟨(f.1.line.toNat, f.2), List.mem_map.mpr ⟨f, ?_, rfl⟩, hline⟩
    exact List.mem_filter.mpr ⟨hm, by simpa using hp⟩

theorem memberEdits_eq_nil (h : ∀ f ∈ memberFragments plan, present t f.2 = true) :
    memberEdits t plan = [] := by
  rw [memberEdits, List.map_eq_nil_iff, List.filter_eq_nil_iff]
  intro f hf
  simp [h f hf]

theorem memberSkipped_eq (h : ∀ f ∈ memberFragments plan, present t f.2 = true) :
    memberSkipped t plan =
      [Text.trim plan.member.declaration, Text.trim plan.member.assignment] := by
  rw [memberSkipped, List.filter_eq_self.mpr h]
  rfl

/-- A member plan that has been carried out has nothing left to insert. -/
theorem execute_leaves_no_edits (d : Document) (p : Position) (s : Settings) (host : Host)
    (a : Action) (plan : MemberPlan) (hk : 1 ≤ host.settings.tabSize)
    (hf : CodePoint.char '\n' ∉ s.privatePrefix) (h : a ∈ d.actionsAt p s)
    (hp : a.plan = .member plan) :
    ∃ applied, (a.execute host (memorySink none) {}).result = .ok applied ∧
      (a.execute host (memorySink none) {}).sink.textAfter d.text = applied.document.text ∧
      memberEdits applied.document.text plan = [] ∧
      memberSkipped applied.document.text plan =
        [Text.trim plan.member.declaration, Text.trim plan.member.assignment] := by
  obtain ⟨rfl, hfits, hc⟩ := Document.fits_of_mem_actionsAt hf h
  obtain ⟨applied, ms, done⟩ := exists_carried hk hc hfits
  rw [hp] at hfits
  have hu := done.finishes.unindented_eq
  rw [hp] at hu
  have hpresent : ∀ f ∈ memberFragments plan, present applied.document.text f.2 = true :=
    fun f hm => present_of_linesAfter hfits done.reads hu hm
  exact ⟨applied, done.result, done.sink, memberEdits_eq_nil hpresent, memberSkipped_eq hpresent⟩

/-- The assignment is there from the start, and the declaration comes above it. -/
theorem execute_leaves_no_edits_besides_assignment :
    ∃ d : Document, d = { text := "public A(int x)\n\x7b\nthis.x = x;\n\x7d" } ∧
      ∃ a ∈ d.actionsAt ⟨0, 14⟩ {}, ∃ plan, a.plan = .member plan ∧
      memberSkipped d.text plan = ["this.x = x;"] ∧
      (1 : Int) ≤ ({} : Host).settings.tabSize ∧
      CodePoint.char '\n' ∉ ({} : Settings).privatePrefix ∧
      ∃ applied, (a.execute {} (memorySink none) {}).result = .ok applied ∧
        (a.execute {} (memorySink none) {}).sink.textAfter d.text = applied.document.text ∧
        memberEdits applied.document.text plan = [] ∧
        memberSkipped applied.document.text plan =
          [Text.trim plan.member.declaration, Text.trim plan.member.assignment] := by
  refine ⟨_, rfl, ?_⟩
  obtain ⟨a, ha, hs⟩ : ∃ a ∈ Document.actionsAt
      { text := "public A(int x)\n\x7b\nthis.x = x;\n\x7d" } ⟨0, 14⟩ {},
      a.plan.command = memberCommand ∧
        a.plan.skipped "public A(int x)\n\x7b\nthis.x = x;\n\x7d" = ["this.x = x;"] := by
    decide +kernel
  cases hp : a.plan with
  | constructor plan =>
    have hc : constructorCommand ≠ memberCommand := by decide
    rw [hp] at hs
    exact absurd hs.1 hc
  | member plan =>
    rw [hp] at hs
    exact ⟨a, ha, plan, hp, hs.2, by decide, by decide,
      execute_leaves_no_edits _ ⟨0, 14⟩ {} {} a plan (by decide) (by decide) ha hp⟩

end Action

end CSharpActions
