import CSharpActions.Proofs.Declaration.LetterCase
import CSharpActions.Proofs.Declaration.Signature
import CSharpActions.Proofs.Text.Leftmost

/-!
# Where a signature is found

A signature begins where a modifier stands in any case, followed by one blank, by a parenthesis
that opens before the next line feed and by one that closes later. The first of these places is
found, and what is read there goes up to the first parenthesis of each kind.
-/
namespace CSharpActions.Signature

open Text (IsCaseOf isBlank)

/-- A modifier in any case. -/
def IsCasedModifier (w : Text) : Prop := ∃ m ∈ PropertyDecl.modifiers, List.Forall₂ IsCaseOf m w

/-- A signature stands at the beginning of the text. -/
def Begins (t : Text) : Prop :=
  ∃ m b x y, IsCasedModifier m ∧ isBlank b = true ∧ t = m ++ b :: (x ++ .char '(' :: y) ∧
    CodePoint.char '\n' ∉ x ∧ CodePoint.char ')' ∈ y

/-- The text begins with what the signature says: between the blank and the first parenthesis that
opens stands the name, between this one and the first that closes the parameters. -/
def ReadsAs (t : Text) (s : Signature) : Prop :=
  ∃ b n r, IsCasedModifier s.modifier ∧ isBlank b = true ∧
    t = s.modifier ++ b :: (n ++ .char '(' :: (s.parameters ++ .char ')' :: r)) ∧
    CodePoint.char '\n' ∉ n ∧ CodePoint.char '(' ∉ n ∧ CodePoint.char ')' ∉ s.parameters ∧
    s.name = Text.trim n

/-- The signature is the one that begins first in the text. -/
structure IsFirstOf (t : Text) (s : Signature) : Prop where
  reads : ReadsAs (t.drop s.offset) s
  least : ∀ i < s.offset, ¬Begins (t.drop i)

variable {t m w : Text} {s : Signature}

theorem forall₂_iff_of_mem {R S : CodePoint → CodePoint → Prop}
    (h : ∀ p ∈ w, ∀ c, R p c ↔ S p c) : List.Forall₂ R w m ↔ List.Forall₂ S w m := by
  induction w generalizing m with
  | nil => rw [List.forall₂_nil_left_iff, List.forall₂_nil_left_iff]
  | cons p w ih =>
    obtain ⟨hp, hw⟩ := List.forall_mem_cons.mp h
    simp only [List.forall₂_cons_left_iff, hp, ih hw]

theorem isCasedModifier_iff : IsCasedModifier m ↔ IsModifier m := by
  have hletters : ∀ w ∈ PropertyDecl.modifiers, w ⊆ letters := by decide
  refine exists_congr fun w => and_congr_right fun hw => ?_
  exact forall₂_iff_of_mem fun p hp c => (matchesLetter_iff (hletters w hw hp)).symm

theorem ReadsAs.begins (h : ReadsAs t s) : Begins t := by
  obtain ⟨b, n, r, hm, hb, ht, hfeed, -⟩ := h
  exact ⟨s.modifier, b, n, s.parameters ++ .char ')' :: r, hm, hb, ht, hfeed, by simp⟩

/-- The first parenthesis that opens stands at the one behind `x` or in front of it. -/
theorem exists_first_paren (x y : Text) : ∃ n z, x ++ .char '(' :: y = n ++ .char '(' :: z ∧
    CodePoint.char '(' ∉ n ∧ n <+: x ∧ y <:+ z := by
  by_cases hx : CodePoint.char '(' ∈ x
  · obtain ⟨n, x', rfl, hn⟩ := List.eq_append_cons_of_mem hx
    refine ⟨n, x' ++ .char '(' :: y, by simp, hn, List.prefix_append _ _, ?_⟩
    exact (List.suffix_cons _ y).trans (List.suffix_append _ _)
  · exact ⟨x, y, rfl, hx, List.prefix_rfl, List.suffix_rfl⟩

/-- Where a signature begins, the first parentheses tell what it says. -/
theorem Begins.exists_readsAs (h : Begins t) (i : Nat) : ∃ s, s.offset = i ∧ ReadsAs t s := by
  obtain ⟨m, b, x, y, hm, hb, rfl, hfeed, hclose⟩ := h
  obtain ⟨n, z, hxy, hopen, hn, hz⟩ := exists_first_paren x y
  obtain ⟨p, r, rfl, hp⟩ := List.eq_append_cons_of_mem (hz.subset hclose)
  refine ⟨⟨m, Text.trim n, p, i⟩, rfl, b, n, r, hm, hb, ?_, fun hc => hfeed (hn.subset hc), hopen,
    hp, rfl⟩
  rw [hxy]

theorem head?_eq_some_iff_readsAs {m n p : Text} {i : Nat} :
    head? t = some (m, n, p) ↔ ReadsAs t ⟨m, n, p, i⟩ := by
  rw [head?_eq_some_iff]
  constructor
  · rintro ⟨x, r, ⟨hm, hopen, hfeed, b, hb, ht⟩, hclose, hn⟩
    exact ⟨b, x, r, isCasedModifier_iff.mpr hm, hb, ht, hfeed, hopen, hclose, hn⟩
  · rintro ⟨b, x, r, hm, hb, ht, hfeed, hopen, hclose, hn⟩
    exact ⟨x, r, ⟨isCasedModifier_iff.mp hm, hopen, hfeed, b, hb, ht⟩, hclose, hn⟩

theorem head?_eq_none_iff (t : Text) : head? t = none ↔ ¬Begins t := by
  constructor
  · intro h hb
    obtain ⟨s, -, hs⟩ := hb.exists_readsAs 0
    rw [head?_eq_some_iff_readsAs.mpr hs] at h
    simp at h
  · intro h
    cases hh : head? t with
    | none => rfl
    | some found => exact absurd (head?_eq_some_iff_readsAs (i := 0).mp hh).begins h

theorem not_begins_nil : ¬Begins [] := by
  rintro ⟨m, b, x, y, -, -, h, -⟩
  simp at h

theorem find?_eq_some_iff : find? t = some s ↔ IsFirstOf t s := by
  obtain ⟨m, n, p, i⟩ := s
  have hfind : find? t = some ⟨m, n, p, i⟩ ↔ Text.leftmost? head? t = some (i, m, n, p) := by
    rw [find?, Option.map_eq_some_iff]
    constructor
    · rintro ⟨⟨i', m', n', p'⟩, hl, he⟩
      simp only [Signature.mk.injEq] at he
      obtain ⟨rfl, rfl, rfl, rfl⟩ := he
      exact hl
    · exact fun hl => ⟨_, hl, rfl⟩
  rw [hfind, Text.leftmost?_eq_some_iff_accepted head?_eq_none_iff not_begins_nil,
    head?_eq_some_iff_readsAs (i := i)]
  exact ⟨fun h => ⟨h.1, h.2⟩, fun h => ⟨h.reads, h.least⟩⟩

theorem exists_find?_iff : (∃ s, find? t = some s) ↔ ∃ i, Begins (t.drop i) := by
  rw [← Text.exists_leftmost?_iff head?_eq_none_iff]
  simp [find?, Option.map_eq_some_iff]

theorem ReadsAs.not_mem (h : ReadsAs t s) : CodePoint.char '(' ∉ s.name ∧
    CodePoint.char '\n' ∉ s.name ∧ CodePoint.char ')' ∉ s.parameters := by
  obtain ⟨b, n, r, -, -, -, hfeed, hopen, hclose, hname⟩ := h
  have hsub : s.name ⊆ n := hname ▸ (Text.trim_infix n).subset
  exact ⟨fun hc => hopen (hsub hc), fun hc => hfeed (hsub hc), hclose⟩

/-- A signature is found exactly in the texts in which one begins, and it is the first of them. Its
name has no parenthesis that opens and stays on its line; its parameters can be any text without a
parenthesis that closes. -/
theorem first_signature_isFound (t : Text) :
    ((∃ s, find? t = some s) ↔ ∃ i, Begins (t.drop i)) ∧
      (∀ s, find? t = some s ↔ IsFirstOf t s) ∧
      (∀ s, find? t = some s → CodePoint.char '(' ∉ s.name ∧ CodePoint.char '\n' ∉ s.name ∧
        CodePoint.char ')' ∉ s.parameters) ∧
      ∀ p : Text, CodePoint.char ')' ∉ p →
        find? ("public A(".text ++ p ++ ")".text) = some ⟨"public", "A", p, 0⟩ := by
  refine ⟨exists_find?_iff, fun s => find?_eq_some_iff, ?_, ?_⟩
  · intro s hs
    exact (find?_eq_some_iff.mp hs).reads.not_mem
  · intro p hp
    have hm : IsCasedModifier "public" := ⟨"public", by decide, by decide +kernel⟩
    have hname : "A".text = Text.trim "A" := by decide +kernel
    refine find?_eq_some_iff.mpr ⟨?_, fun i hi => absurd hi (Nat.not_lt_zero i)⟩
    exact ⟨.char ' ', "A", [], hm, by decide, by simp [String.text], by decide, by decide, hp, hname⟩

/-- A modifier at the end of a word and in capitals, a line feed for the blank, and parameters on
two lines. -/
example : find? "x = notPUBLİC\nA (int a,\n(int b) : this(a)" =
    some ⟨"PUBLİC", "A", "int a,\n(int b", 7⟩ := by
  decide +kernel

end CSharpActions.Signature
