import CSharpActions.Proofs.Declaration.Signature

/-!
# Lines before a signature

A signature opens on one line, or it has its modifier at the end of a line and its name on the
next. What the lines in front of a text have to look like for nothing to open there does not depend
on their indentation, and stays so when a line without a parenthesis comes between them.
-/
namespace CSharpActions

namespace Signature

variable {t v x y : Text} {c : CodePoint}

theorem not_opens_cons (h : isLetter c = false) (t : Text) : ¬Opens (c :: t) := by
  rintro ⟨m, n, r, hm, -, -, b, -, he⟩
  cases m with
  | nil => exact not_isModifier_nil hm
  | cons d m =>
    obtain ⟨rfl, -⟩ := List.cons.inj he
    rw [isLetter_of_mem hm List.mem_cons_self] at h
    exact Bool.false_ne_true h.symm

theorem Opens.append (h : Opens t) (y : Text) : Opens (t ++ y) := by
  obtain ⟨m, n, r, hm, hopen, hfeed, c, hb, rfl⟩ := h
  exact ⟨m, n, r ++ y, hm, hopen, hfeed, c, hb, by simp⟩

theorem silent_append (x y t : Text) : Silent (x ++ y) t ↔ Silent x (y ++ t) ∧ Silent y t := by
  induction x with
  | nil => simp [Silent]
  | cons c x ih =>
    rw [List.cons_append, Silent, Silent, ih, List.append_assoc]
    exact and_assoc.symm

theorem silent_of_forall (h : ∀ c ∈ x, isLetter c = false) (t : Text) : Silent x t := by
  induction x with
  | nil => trivial
  | cons c x ih =>
    exact ⟨not_opens_cons (h c List.mem_cons_self) _,
      ih fun d hd => h d (List.mem_cons_of_mem c hd)⟩

theorem silent_of_not_mem (h : CodePoint.char '(' ∉ x) : Silent x [] := by
  induction x with
  | nil => trivial
  | cons c x ih =>
    refine ⟨?_, ih (List.not_mem_of_not_mem_cons h)⟩
    rintro ⟨m, n, r, -, -, -, b, -, he⟩
    rw [List.append_nil] at he
    exact h (by simp [he])

theorem silent_indent_append (h : ∀ c ∈ x, Document.isIndent c = true) (y t : Text) :
    Silent (x ++ y) t ↔ Silent y t := by
  rw [silent_append]
  exact and_iff_right (silent_of_forall (fun c hc => isLetter_of_isIndent (h c hc)) _)

/-- An opening that goes over a line feed has the feed for its blank. -/
theorem opens_append_feed (hv : CodePoint.char '\n' ∉ v) (t : Text) :
    Opens (v ++ .char '\n' :: t) ↔ Opens v ∨ IsModifier v ∧ Names t := by
  constructor
  · rintro ⟨m, n, r, hm, hopen, hfeed, c, hb, he⟩
    have hm' : CodePoint.char '\n' ∉ m := not_mem_modifier hm (by decide)
    rcases List.append_eq_append_iff.mp he with ⟨a, rfl, ha⟩ | ⟨a, rfl, ha⟩
    · cases a with
      | nil =>
        obtain ⟨-, rfl⟩ := List.cons.inj ha
        rw [List.append_nil] at hm
        exact Or.inr ⟨hm, n, r, rfl, hopen, hfeed⟩
      | cons d a =>
        obtain ⟨rfl, -⟩ := List.cons.inj ha
        simp at hm'
    · cases a with
      | nil =>
        obtain ⟨-, rfl⟩ := List.cons.inj ha
        rw [List.append_nil]
        exact Or.inr ⟨hm, n, r, rfl, hopen, hfeed⟩
      | cons d a =>
        obtain ⟨rfl, ht⟩ := List.cons.inj ha
        rcases List.append_eq_append_iff.mp ht with ⟨b, rfl, hr⟩ | ⟨b, rfl, hr⟩
        · cases b with
          | nil => simp at hr
          | cons d b =>
            obtain ⟨rfl, -⟩ := List.cons.inj hr
            exact Or.inl ⟨m, n, b, hm, hopen, hfeed, c, hb, rfl⟩
        · cases b with
          | nil => simp at hr
          | cons d b =>
            obtain ⟨rfl, -⟩ := List.cons.inj hr
            simp at hfeed
  · rintro (h | ⟨hm, n, r, rfl, hopen, hfeed⟩)
    · exact h.append _
    · exact ⟨v, n, r, hm, hopen, hfeed, .char '\n', by decide, rfl⟩

theorem opens_concat_return : Opens (v ++ [.char '\r']) ↔ Opens v := by
  constructor
  · rintro ⟨m, n, r, hm, hopen, hfeed, c, hb, he⟩
    rcases List.eq_nil_or_concat' r with rfl | ⟨r, d, rfl⟩
    · have hs : m ++ c :: (n ++ [.char '(']) = (m ++ c :: n) ++ [.char '('] := by simp
      rw [hs] at he
      simpa using List.append_inj_right' he rfl
    · have hs : m ++ c :: (n ++ .char '(' :: (r ++ [d])) =
          (m ++ c :: (n ++ .char '(' :: r)) ++ [d] := by simp
      rw [hs] at he
      exact ⟨m, n, r, hm, hopen, hfeed, c, hb, List.append_inj_left' he rfl⟩
  · exact fun h => h.append _

theorem dangles_cons_iff : Dangles (c :: v) ↔ IsModifier (c :: v) ∨ Dangles v := by
  simp only [Dangles, List.suffix_cons_iff]
  constructor
  · rintro ⟨w, rfl | hw, hm⟩
    · exact Or.inl hm
    · exact Or.inr ⟨w, hw, hm⟩
  · rintro (h | ⟨w, hw, hm⟩)
    · exact ⟨_, Or.inl rfl, h⟩
    · exact ⟨w, Or.inr hw, hm⟩

theorem not_dangles_nil : ¬Dangles [] := by
  rintro ⟨w, hw, hm⟩
  rw [List.suffix_nil.mp hw] at hm
  exact not_isModifier_nil hm

theorem not_dangles_concat (h : isLetter c = false) : ¬Dangles (v ++ [c]) := by
  rintro ⟨w, hw, hm⟩
  rcases List.suffix_concat_iff.mp hw with rfl | ⟨w', rfl, -⟩
  · exact not_isModifier_nil hm
  · exact not_mem_modifier hm h (by simp)

theorem dangles_indent_append (h : ∀ c ∈ x, Document.isIndent c = true) :
    Dangles (x ++ y) ↔ Dangles y := by
  induction x with
  | nil => rfl
  | cons c x ih =>
    have hc := isLetter_of_isIndent (h c List.mem_cons_self)
    rw [List.cons_append, dangles_cons_iff, ih fun d hd => h d (List.mem_cons_of_mem c hd)]
    exact or_iff_right fun hm => not_mem_modifier hm hc List.mem_cons_self

theorem silent_append_feed (hv : CodePoint.char '\n' ∉ v) (t : Text) :
    Silent v (.char '\n' :: t) ↔ Silent v [] ∧ (Dangles v → ¬Names t) := by
  induction v with
  | nil => simp [Silent, not_dangles_nil]
  | cons c v ih =>
    have ho := opens_append_feed hv t
    rw [List.cons_append] at ho
    rw [Silent, Silent, ho, ih (List.not_mem_of_not_mem_cons hv), dangles_cons_iff,
      List.append_nil]
    constructor
    · rintro ⟨h₁, h₂, h₃⟩
      refine ⟨⟨fun h => h₁ (Or.inl h), h₂⟩, ?_⟩
      rintro (hm | hd) hn
      · exact h₁ (Or.inr ⟨hm, hn⟩)
      · exact h₃ hd hn
    · rintro ⟨⟨h₁, h₂⟩, h₃⟩
      refine ⟨?_, h₂, fun hd => h₃ (Or.inr hd)⟩
      rintro (h | ⟨hm, hn⟩)
      · exact h₁ h
      · exact h₃ (Or.inl hm) hn

theorem silent_return : Silent v [.char '\r'] ↔ Silent v [] := by
  induction v with
  | nil => rfl
  | cons c v ih =>
    have ho := opens_concat_return (v := c :: v)
    rw [List.cons_append] at ho
    rw [Silent, Silent, ho, ih, List.append_nil]

theorem names_append (hv : CodePoint.char '\n' ∉ v) (hm : CodePoint.char '(' ∈ v) (t : Text) :
    Names (v ++ t) := by
  obtain ⟨a, b, rfl, hn⟩ := List.eq_append_cons_of_mem hm
  exact ⟨a, b ++ t, by simp, hn, fun h => hv (List.mem_append_left _ h)⟩

theorem names_append_feed_iff (hv : CodePoint.char '\n' ∉ v) (t : Text) :
    Names (v ++ .char '\n' :: t) ↔ CodePoint.char '(' ∈ v := by
  refine ⟨?_, fun h => names_append hv h _⟩
  rintro ⟨n, r, he, -, hfeed⟩
  rcases List.append_eq_append_iff.mp he with ⟨a, rfl, ha⟩ | ⟨a, rfl, ha⟩
  · cases a with
    | nil => simp at ha
    | cons d a =>
      obtain ⟨rfl, -⟩ := List.cons.inj ha
      simp at hfeed
  · cases a with
    | nil => simp at ha
    | cons d a =>
      obtain ⟨rfl, -⟩ := List.cons.inj ha
      simp

end Signature

namespace Line

open Signature (Silent Names)

/-- Nothing opens on the line itself. -/
def IsSilent (l : Line) : Prop := Silent l.content []

/-- A modifier ends the line, and the line feed follows it at once. -/
def Dangles (l : Line) : Prop := l.ending = [.char '\n'] ∧ Signature.Dangles l.content

/-- Nothing opens on the lines, given that the next line has a parenthesis. -/
def Quiet : List Line → Prop
  | [] => True
  | [l] => l.IsSilent ∧ ¬l.Dangles
  | l :: k :: r => l.IsSilent ∧ (l.Dangles → CodePoint.char '(' ∉ k.content) ∧ Quiet (k :: r)

variable {l : Line} {ls ks : List Line} {t x : Text}

theorem silent_text (h : l.Inner) (t : Text) :
    Silent l.text t ↔ l.IsSilent ∧ (l.Dangles → ¬Names t) := by
  obtain ⟨hn, he | ⟨he, -⟩⟩ := h
  · -- the carriage return keeps a modifier apart from the line feed
    have hr : CodePoint.char '\n' ∉ l.content ++ [.char '\r'] := by simpa using hn
    have ht : l.text = (l.content ++ [.char '\r']) ++ [.char '\n'] := by simp [text, he]
    have hd : ¬Signature.Dangles (l.content ++ [.char '\r']) :=
      Signature.not_dangles_concat (by decide)
    have hs : Silent [.char '\r'] [] := Signature.silent_of_forall (by decide) _
    have hf : Silent [.char '\n'] t := Signature.silent_of_forall (by decide) _
    rw [ht, Signature.silent_append, List.singleton_append, Signature.silent_append_feed hr,
      Signature.silent_append, List.append_nil, Signature.silent_return]
    simp [hd, hs, hf, IsSilent, Dangles, he]
  · have hf : Silent [.char '\n'] t := Signature.silent_of_forall (by decide) _
    rw [text, he, Signature.silent_append, List.singleton_append,
      Signature.silent_append_feed hn]
    simp [hf, IsSilent, Dangles, he]

theorem names_text_append_iff (h : l.Inner) (t : Text) :
    Names (l.text ++ t) ↔ CodePoint.char '(' ∈ l.content := by
  obtain ⟨hn, he | ⟨he, -⟩⟩ := h
  · have hr : CodePoint.char '\n' ∉ l.content ++ [.char '\r'] := by simpa using hn
    have ht : l.text ++ t = (l.content ++ [.char '\r']) ++ .char '\n' :: t := by simp [text, he]
    rw [ht, Signature.names_append_feed_iff hr]
    simp
  · have ht : l.text ++ t = l.content ++ .char '\n' :: t := by simp [text, he]
    rw [ht, Signature.names_append_feed_iff hn]

/-- Nothing opens before a text with a name exactly if the lines are quiet and nothing opens on
its own line. -/
theorem silent_join_append_iff (hi : ∀ k ∈ ks, k.Inner) (x : Text) (hn : Names (x ++ t)) :
    Silent (join ks ++ x) t ↔ Quiet ks ∧ Silent x t := by
  induction ks with
  | nil => simp [Quiet]
  | cons l ks ih =>
    have ih := ih fun k hk => hi k (List.mem_cons_of_mem l hk)
    have hl := silent_text (hi l List.mem_cons_self) ((join ks ++ x) ++ t)
    rw [join_cons, List.append_assoc, Signature.silent_append, hl, ih]
    cases ks with
    | nil =>
      simp only [join_nil, List.nil_append, hn, Quiet, not_true, imp_false, true_and]
    | cons k ks =>
      have hk := hi k (by simp)
      rw [join_cons, List.append_assoc, List.append_assoc, names_text_append_iff hk, Quiet]
      simp only [and_assoc]

theorem isSilent_unindented (l : Line) : l.unindented.IsSilent ↔ l.IsSilent := by
  have h := Signature.silent_indent_append (x := Document.indentOf l.content)
    (fun _ => Document.isIndent_of_mem_indentOf) (l.content.dropWhile Document.isIndent) []
  rw [Document.indentOf_append_dropWhile] at h
  exact h.symm

theorem dangles_unindented (l : Line) : l.unindented.Dangles ↔ l.Dangles := by
  have h := Signature.dangles_indent_append (x := Document.indentOf l.content)
    (y := l.content.dropWhile Document.isIndent) fun _ => Document.isIndent_of_mem_indentOf
  rw [Document.indentOf_append_dropWhile] at h
  exact and_congr_right fun _ => h.symm

theorem mem_unindented_content {c : CodePoint} (hc : Document.isIndent c = false) (l : Line) :
    c ∈ l.unindented.content ↔ c ∈ l.content := by
  conv_rhs => rw [← Document.indentOf_append_dropWhile l.content]
  rw [List.mem_append]
  refine (or_iff_right fun h => ?_).symm
  rw [Document.isIndent_of_mem_indentOf h] at hc
  exact Bool.false_ne_true hc.symm

theorem quiet_map_unindented (ls : List Line) : Quiet (ls.map unindented) ↔ Quiet ls := by
  induction ls with
  | nil => rfl
  | cons l ls ih =>
    cases ls with
    | nil => simp only [List.map_cons, List.map_nil, Quiet, isSilent_unindented, dangles_unindented]
    | cons k ls =>
      rw [List.map_cons] at ih
      simp only [List.map_cons, Quiet, isSilent_unindented, dangles_unindented, ih,
        mem_unindented_content (c := .char '(') (by decide)]

theorem Quiet.of_cons (h : Quiet (l :: ls)) : Quiet ls := by
  cases ls with
  | nil => trivial
  | cons k ls => exact h.2.2

theorem Quiet.of_suffix (h : Quiet ls) (hs : ks <:+ ls) : Quiet ks := by
  induction ls with
  | nil => rwa [List.suffix_nil.mp hs]
  | cons l ls ih =>
    rcases List.suffix_cons_iff.mp hs with rfl | hs
    · exact h
    · exact ih h.of_cons hs

/-- A line without a parenthesis can come between quiet lines. -/
theorem Quiet.insert (h : Quiet (ks ++ ls)) (hd : ¬l.Dangles)
    (hp : CodePoint.char '(' ∉ l.content) : Quiet (ks ++ l :: ls) := by
  have hs : l.IsSilent := Signature.silent_of_not_mem hp
  induction ks with
  | nil =>
    cases ls with
    | nil => exact ⟨hs, hd⟩
    | cons k ls => exact ⟨hs, fun h => absurd h hd, h⟩
  | cons k ks ih =>
    have ih := ih h.of_cons
    cases ks with
    | nil =>
      have hk : k.IsSilent := by
        cases ls with
        | nil => exact h.1
        | cons m ls => exact h.1
      exact ⟨hk, fun _ => hp, ih⟩
    | cons m ks => exact ⟨h.1, h.2.1, ih⟩

end Line

end CSharpActions
