import CSharpActions.Proofs.Document.Line
import CSharpActions.Declaration.Signature
import Mathlib.Data.List.Forall2

/-!
# The first signature of a text

A signature opens with a modifier, a blank and a name up to a parenthesis. In front of a whole
signature, every opening makes a signature of its own, since the closing parenthesis is there. So a
signature is the first one of a text exactly if nothing opens before it, and whether something does
can be told line by line, whatever the indentation.
-/
namespace CSharpActions.Signature

/-- A modifier in some letter case. -/
def IsModifier (w : Text) : Prop :=
  ∃ m ∈ PropertyDecl.modifiers, List.Forall₂ (fun p c => matchesLetter p c = true) m w

/-- Whether a modifier can have the character. -/
def isLetter (c : CodePoint) : Bool :=
  PropertyDecl.modifiers.any fun m => m.any fun p => matchesLetter p c

/-- The text begins with a name that ends at a parenthesis on the same line. -/
def Names (t : Text) : Prop :=
  ∃ n r, t = n ++ .char '(' :: r ∧ CodePoint.char '(' ∉ n ∧ CodePoint.char '\n' ∉ n

/-- The text begins with a modifier and a name, and `r` follows the parenthesis. -/
def Opening (t m n r : Text) : Prop :=
  IsModifier m ∧ CodePoint.char '(' ∉ n ∧ CodePoint.char '\n' ∉ n ∧
    ∃ c, Text.isBlank c = true ∧ t = m ++ c :: (n ++ .char '(' :: r)

def Opens (t : Text) : Prop := ∃ m n r, Opening t m n r

/-- Nothing opens in the first text when the second follows it. -/
def Silent : Text → Text → Prop
  | [], _ => True
  | c :: x, t => ¬Opens (c :: (x ++ t)) ∧ Silent x t

/-- The text ends in a modifier. -/
def Dangles (t : Text) : Prop := ∃ w, w <:+ t ∧ IsModifier w

variable {t u v w m n r s x y : Text} {c : CodePoint}

theorem word?_eq_some_iff {p : Text} : word? p t = some (w, r) ↔
    t = w ++ r ∧ List.Forall₂ (fun p c => matchesLetter p c = true) p w := by
  induction p generalizing t w with
  | nil =>
    rw [word?, List.forall₂_nil_left_iff]
    simp only [Option.some.injEq, Prod.mk.injEq]
    constructor
    · rintro ⟨rfl, rfl⟩
      exact ⟨rfl, rfl⟩
    · rintro ⟨rfl, rfl⟩
      exact ⟨rfl, rfl⟩
  | cons a p ih =>
    rw [List.forall₂_cons_left_iff]
    cases t with
    | nil =>
      simp only [word?, reduceCtorEq, false_iff]
      rintro ⟨he, c, w', -, -, rfl⟩
      simp at he
    | cons c t =>
      rw [word?]
      split
      · rename_i hc
        rw [Option.map_eq_some_iff]
        constructor
        · rintro ⟨⟨w', r'⟩, hw, he⟩
          obtain ⟨rfl, rfl⟩ := Prod.mk.inj he
          obtain ⟨rfl, hf⟩ := ih.mp hw
          exact ⟨rfl, c, w', hc, hf, rfl⟩
        · rintro ⟨he, c', w', -, hf, rfl⟩
          obtain ⟨rfl, rfl⟩ := List.cons.inj he
          exact ⟨(w', r), ih.mpr ⟨rfl, hf⟩, rfl⟩
      · rename_i hc
        simp only [reduceCtorEq, false_iff]
        rintro ⟨he, c', w', hc', -, rfl⟩
        obtain ⟨rfl, -⟩ := List.cons.inj he
        exact hc hc'

theorem isLetter_of_mem (h : IsModifier w) (hc : c ∈ w) : isLetter c = true := by
  obtain ⟨m, hm, hf⟩ := h
  obtain ⟨p, hp, hpc⟩ : ∃ p ∈ m, matchesLetter p c = true := by
    clear hm
    induction hf with
    | nil => simp at hc
    | cons h _ ih =>
      rcases List.mem_cons.mp hc with rfl | hc
      · exact ⟨_, List.mem_cons_self, h⟩
      · obtain ⟨p, hp, h⟩ := ih hc
        exact ⟨p, List.mem_cons_of_mem _ hp, h⟩
  exact List.any_eq_true.mpr ⟨m, hm, List.any_eq_true.mpr ⟨p, hp, hpc⟩⟩

theorem not_mem_modifier (h : IsModifier w) (hc : isLetter c = false) : c ∉ w := by
  intro hm
  rw [isLetter_of_mem h hm] at hc
  exact Bool.false_ne_true hc.symm

theorem not_isModifier_nil : ¬IsModifier [] := by
  rintro ⟨m, hm, hf⟩
  obtain rfl := List.forall₂_nil_right_iff.mp hf
  exact absurd hm (by decide)

theorem isLetter_of_isIndent (h : Document.isIndent c = true) : isLetter c = false := by
  rcases Document.isIndent_iff.mp h with rfl | rfl <;> decide

/-- A character stands for one letter of ASCII at most. -/
theorem eq_of_matchesLetter {p q : CodePoint} (hp : p.toNat < 128) (hq : q.toNat < 128)
    (h : matchesLetter p c = true) (h' : matchesLetter q c = true) : p = q := by
  have hlow : ∀ x : CodePoint, x.toNat < 128 → c.toLower = x →
      ¬(c = .char '\u0130' ∨ c = .char '\u0131') := by
    rintro x hx rfl (rfl | rfl)
    · exact absurd hx (by decide)
    · exact absurd hx (by decide)
  simp only [matchesLetter, Bool.or_eq_true, Bool.and_eq_true, decide_eq_true_eq] at h h'
  rcases h with h | ⟨rfl, h⟩
  · rcases h' with h' | ⟨rfl, h'⟩
    · exact h.symm.trans h'
    · exact absurd h' (hlow p hp h)
  · rcases h' with h' | ⟨rfl, h'⟩
    · exact absurd h (hlow q hq h')
    · rfl

theorem prefix_or_prefix_of_forall₂ {p q w' r' : Text} (hp : ∀ a ∈ p, a.toNat < 128)
    (hq : ∀ a ∈ q, a.toNat < 128) (h : List.Forall₂ (fun p c => matchesLetter p c = true) p w)
    (h' : List.Forall₂ (fun p c => matchesLetter p c = true) q w') (he : w ++ r = w' ++ r') :
    p <+: q ∨ q <+: p := by
  induction h generalizing q w' with
  | nil => exact Or.inl List.nil_prefix
  | cons hc _ ih =>
    cases h' with
    | nil => exact Or.inr List.nil_prefix
    | cons hc' h' =>
      obtain ⟨rfl, ht⟩ := List.cons.inj he
      obtain rfl := eq_of_matchesLetter (hp _ List.mem_cons_self) (hq _ List.mem_cons_self) hc hc'
      rcases ih (fun a ha => hp a (List.mem_cons_of_mem _ ha))
        (fun a ha => hq a (List.mem_cons_of_mem _ ha)) h' ht with h | h
      · exact Or.inl (List.cons_prefix_cons.mpr ⟨rfl, h⟩)
      · exact Or.inr (List.cons_prefix_cons.mpr ⟨rfl, h⟩)

/-- A text begins with one modifier at most. -/
theorem IsModifier.unique {w' r' : Text} (h : IsModifier w) (h' : IsModifier w')
    (he : w ++ r = w' ++ r') : w = w' := by
  obtain ⟨p, hp, hf⟩ := h
  obtain ⟨q, hq, hf'⟩ := h'
  have hascii : ∀ m ∈ PropertyDecl.modifiers, ∀ a ∈ m, a.toNat < 128 := by decide
  have hdistinct : ∀ m ∈ PropertyDecl.modifiers, ∀ k ∈ PropertyDecl.modifiers,
      m <+: k ∨ k <+: m → m = k := by decide
  obtain rfl := hdistinct p hp q hq
    (prefix_or_prefix_of_forall₂ (hascii p hp) (hascii q hq) hf hf' he)
  exact List.append_inj_left he (hf.length_eq.symm.trans hf'.length_eq)

theorem findSome?_word?_eq_some_iff :
    (PropertyDecl.modifiers.findSome? fun m => word? m t) = some (w, r) ↔
      t = w ++ r ∧ IsModifier w := by
  have sound : ∀ {w r : Text},
      (PropertyDecl.modifiers.findSome? fun m => word? m t) = some (w, r) →
        t = w ++ r ∧ IsModifier w := by
    intro w r h
    obtain ⟨m, hm, hw⟩ := List.exists_of_findSome?_eq_some h
    obtain ⟨rfl, hf⟩ := word?_eq_some_iff.mp hw
    exact ⟨rfl, m, hm, hf⟩
  refine ⟨sound, ?_⟩
  rintro ⟨rfl, m, hm, hf⟩
  cases hs : PropertyDecl.modifiers.findSome? fun m => word? m (w ++ r) with
  | none =>
    have := List.findSome?_eq_none_iff.mp hs m hm
    rw [word?_eq_some_iff.mpr ⟨rfl, hf⟩] at this
    simp at this
  | some f =>
    obtain ⟨he, hw⟩ := sound (w := f.1) (r := f.2) hs
    obtain rfl := IsModifier.unique ⟨m, hm, hf⟩ hw he
    rw [List.append_cancel_left he]

/-- The first `d` of a text is at its head or behind it. -/
theorem cons_eq_append_cons_iff {d : CodePoint} :
    (c :: t = n ++ d :: r ∧ d ∉ n) ↔
      (c = d ∧ n = [] ∧ t = r) ∨ (c ≠ d ∧ ∃ n', n = c :: n' ∧ t = n' ++ d :: r ∧ d ∉ n') := by
  cases n with
  | nil =>
    constructor
    · rintro ⟨he, -⟩
      obtain ⟨rfl, rfl⟩ := List.cons.inj he
      exact Or.inl ⟨rfl, rfl, rfl⟩
    · rintro (⟨rfl, -, rfl⟩ | ⟨-, n', hn, -⟩)
      · exact ⟨rfl, by simp⟩
      · simp at hn
  | cons x n =>
    constructor
    · rintro ⟨he, hd⟩
      obtain ⟨rfl, rfl⟩ := List.cons.inj he
      obtain ⟨hx, hn⟩ := List.ne_and_not_mem_of_not_mem_cons hd
      exact Or.inr ⟨hx.symm, n, rfl, rfl, hn⟩
    · rintro (⟨-, hn, -⟩ | ⟨hx, n', hn, rfl, hd⟩)
      · simp at hn
      · obtain ⟨rfl, rfl⟩ := List.cons.inj hn
        exact ⟨rfl, List.not_mem_cons_of_ne_of_not_mem hx.symm hd⟩

theorem name?_eq_some_iff : name? t = some (n, r) ↔
    (t = n ++ .char '(' :: r ∧ CodePoint.char '(' ∉ n) ∧ CodePoint.char '\n' ∉ n := by
  induction t generalizing n with
  | nil => simp [name?]
  | cons c t ih =>
    rw [cons_eq_append_cons_iff, name?]
    split
    · rename_i hc
      simp only [hc, Option.some.injEq, Prod.mk.injEq, ne_eq, not_true, false_and, or_false,
        true_and]
      constructor
      · rintro ⟨rfl, rfl⟩
        simp
      · rintro ⟨⟨rfl, rfl⟩, -⟩
        exact ⟨rfl, rfl⟩
    · rename_i hc
      split
      · rename_i hf
        simp only [reduceCtorEq, false_iff]
        rintro ⟨⟨h, -⟩ | ⟨-, n', rfl, -⟩, hn⟩
        · exact hc h
        · exact hn (by simp [hf])
      · rename_i hf
        rw [Option.map_eq_some_iff]
        constructor
        · rintro ⟨⟨n', r'⟩, hn, he⟩
          obtain ⟨rfl, rfl⟩ := Prod.mk.inj he
          obtain ⟨⟨ht, ho⟩, hn⟩ := ih.mp hn
          exact ⟨Or.inr ⟨hc, n', rfl, ht, ho⟩,
            List.not_mem_cons_of_ne_of_not_mem (Ne.symm hf) hn⟩
        · rintro ⟨⟨h, -⟩ | ⟨-, n', rfl, ht, ho⟩, hn⟩
          · exact absurd h hc
          · exact ⟨(n', r), ih.mpr ⟨⟨ht, ho⟩, List.not_mem_of_not_mem_cons hn⟩, rfl⟩

theorem parameters?_eq_some_iff : parameters? t = some s ↔
    ∃ r, t = s ++ .char ')' :: r ∧ CodePoint.char ')' ∉ s := by
  induction t generalizing s with
  | nil => simp [parameters?]
  | cons c t ih =>
    simp only [cons_eq_append_cons_iff, parameters?]
    split
    · rename_i hc
      simp [hc, eq_comm]
    · rename_i hc
      rw [Option.map_eq_some_iff]
      constructor
      · rintro ⟨s', hs, rfl⟩
        obtain ⟨r, ht, hn⟩ := ih.mp hs
        exact ⟨r, Or.inr ⟨hc, s', rfl, ht, hn⟩⟩
      · rintro ⟨r, ⟨h, -⟩ | ⟨-, s', rfl, ht, hn⟩⟩
        · exact absurd h hc
        · exact ⟨s', ih.mpr ⟨r, ht, hn⟩, rfl⟩

theorem head?_eq_some_iff : head? t = some (m, x, s) ↔
    ∃ n r, Opening t m n (s ++ .char ')' :: r) ∧ CodePoint.char ')' ∉ s ∧ x = Text.trim n := by
  unfold head?
  constructor
  · intro h
    obtain ⟨⟨m', r₁⟩, hm, hr⟩ := Option.bind_eq_some_iff.mp h
    obtain ⟨rfl, hmod⟩ := findSome?_word?_eq_some_iff.mp hm
    dsimp only at hr
    split at hr
    · simp at hr
    · rename_i c r₂
      split at hr
      · rename_i hb
        obtain ⟨⟨n, r₃⟩, hn, hr⟩ := Option.bind_eq_some_iff.mp hr
        obtain ⟨s', hs, he⟩ := Option.map_eq_some_iff.mp hr
        simp only [Prod.mk.injEq] at he
        obtain ⟨rfl, rfl, rfl⟩ := he
        obtain ⟨⟨rfl, hopen⟩, hfeed⟩ := name?_eq_some_iff.mp hn
        obtain ⟨r, rfl, hclose⟩ := parameters?_eq_some_iff.mp hs
        exact ⟨n, r, ⟨hmod, hopen, hfeed, c, hb, rfl⟩, hclose, rfl⟩
      · simp at hr
  · rintro ⟨n, r, ⟨hmod, hopen, hfeed, c, hb, rfl⟩, hclose, rfl⟩
    rw [findSome?_word?_eq_some_iff.mpr ⟨rfl, hmod⟩]
    simp only [Option.bind_some, hb, if_true]
    rw [name?_eq_some_iff.mpr ⟨⟨rfl, hopen⟩, hfeed⟩]
    simp only [Option.bind_some]
    rw [parameters?_eq_some_iff.mpr ⟨r, rfl, hclose⟩]
    rfl

theorem parameters_subset {sig : Signature} (h : find? t = some sig) :
    sig.parameters ⊆ t := by
  obtain ⟨⟨i, m, x, s⟩, hl, rfl⟩ := Option.map_eq_some_iff.mp h
  obtain ⟨-, hh, -⟩ := Text.leftmost?_eq_some hl
  obtain ⟨n, r, ⟨-, -, -, c, -, ht⟩, -, -⟩ := head?_eq_some_iff.mp hh
  intro y hy
  have hd : y ∈ t.drop i := by
    rw [ht]
    simp [hy]
  exact List.mem_of_mem_drop hd

/-- What follows the parenthesis that ends an opening does not matter to it, and neither does what
follows a later one. -/
theorem Opening.replace {rest : Text} (h : Opening (x ++ .char '(' :: rest) m n r)
    (rest' : Text) : ∃ r', Opening (x ++ .char '(' :: rest') m n r' ∧ rest' <:+ r' := by
  obtain ⟨hm, hopen, hfeed, c, hb, he⟩ := h
  have hfront : CodePoint.char '(' ∉ m ++ c :: n := by
    simp only [List.mem_append, List.mem_cons, not_or]
    refine ⟨not_mem_modifier hm (by decide), ?_, hopen⟩
    rintro rfl
    exact absurd hb (by decide)
  have hassoc : ∀ q : Text, m ++ c :: (n ++ .char '(' :: q) = (m ++ c :: n) ++ .char '(' :: q := by
    simp
  rw [hassoc] at he
  rcases List.append_eq_append_iff.mp he with ⟨a, ha, hr⟩ | ⟨a, ha, hr⟩
  · -- the opening cannot end behind the parenthesis
    cases a with
    | nil =>
      refine ⟨rest', ⟨hm, hopen, hfeed, c, hb, ?_⟩, List.suffix_rfl⟩
      rw [hassoc, ha, List.append_nil]
    | cons d a =>
      obtain ⟨rfl, -⟩ := List.cons.inj hr
      rw [ha] at hfront
      simp at hfront
  · cases a with
    | nil =>
      refine ⟨rest', ⟨hm, hopen, hfeed, c, hb, ?_⟩, List.suffix_rfl⟩
      rw [hassoc, ha, List.append_nil]
    | cons d a =>
      obtain ⟨rfl, -⟩ := List.cons.inj hr
      refine ⟨a ++ .char '(' :: rest', ⟨hm, hopen, hfeed, c, hb, ?_⟩,
        (List.suffix_cons _ _).trans (List.suffix_append _ _)⟩
      rw [hassoc, ha]
      simp

/-- The text of a whole signature. -/
def Whole (t m x s : Text) : Prop :=
  ∃ n, Opening t m n (s ++ [.char ')']) ∧ CodePoint.char ')' ∉ s ∧ x = Text.trim n

theorem Whole.exists_paren (h : Whole t m x s) :
    ∃ u, ∀ y, t ++ y = u ++ .char '(' :: (s ++ .char ')' :: y) := by
  obtain ⟨n, ⟨-, -, -, c, -, rfl⟩, -⟩ := h
  exact ⟨m ++ c :: n, fun y => by simp⟩

theorem Whole.head?_append (h : Whole t m x s) (y : Text) : head? (t ++ y) = some (m, x, s) := by
  obtain ⟨n, ⟨hm, hopen, hfeed, c, hb, rfl⟩, hclose, rfl⟩ := h
  refine head?_eq_some_iff.mpr ⟨n, y, ⟨hm, hopen, hfeed, c, hb, ?_⟩, hclose, rfl⟩
  simp

/-- A signature at the beginning of a text is the whole of a beginning of it. -/
theorem exists_whole_of_head? (h : head? t = some (m, x, s)) :
    ∃ u y, t = u ++ y ∧ Whole u m x s := by
  obtain ⟨n, r, ⟨hm, hopen, hfeed, c, hb, rfl⟩, hclose, rfl⟩ := head?_eq_some_iff.mp h
  refine ⟨m ++ c :: (n ++ .char '(' :: (s ++ [.char ')'])), r, by simp, n,
    ⟨hm, hopen, hfeed, c, hb, rfl⟩, hclose, rfl⟩

/-- In front of a whole signature, what opens is a signature. -/
theorem Whole.head?_eq_none_iff (h : Whole t m x s) (u y : Text) :
    head? (u ++ (t ++ y)) = none ↔ ¬Opens (u ++ t) := by
  obtain ⟨v, hv⟩ := h.exists_paren
  have h₁ : u ++ (t ++ y) = (u ++ v) ++ .char '(' :: (s ++ .char ')' :: y) := by
    rw [hv, List.append_assoc]
  have h₂ : u ++ t = (u ++ v) ++ .char '(' :: (s ++ [.char ')']) := by
    have := hv []
    rw [List.append_nil] at this
    rw [this, List.append_assoc]
  rw [← not_iff_not, not_not, ← ne_eq, Option.ne_none_iff_exists']
  constructor
  · rintro ⟨⟨m', x', s'⟩, hh⟩
    obtain ⟨n, r, ho, -⟩ := head?_eq_some_iff.mp hh
    rw [h₁] at ho
    obtain ⟨r', ho, -⟩ := ho.replace (s ++ [.char ')'])
    exact ⟨m', n, r', by rwa [h₂]⟩
  · rintro ⟨m', n, r, ho⟩
    rw [h₂] at ho
    obtain ⟨r', ho, hsuffix⟩ := ho.replace (s ++ .char ')' :: y)
    have hclose : CodePoint.char ')' ∈ r' := hsuffix.subset (by simp)
    obtain ⟨a, b, rfl, hn⟩ := List.eq_append_cons_of_mem hclose
    refine ⟨(m', Text.trim n, a), head?_eq_some_iff.mpr ⟨n, b, ?_, hn, rfl⟩⟩
    rwa [h₁]

/-- A whole signature is the first one of a text exactly if nothing opens before it. -/
theorem Whole.leftmost?_eq_iff (h : Whole t m x s) (u y : Text) :
    Text.leftmost? head? (u ++ (t ++ y)) = some (u.length, m, x, s) ↔ Silent u t := by
  induction u with
  | nil =>
    simp only [List.nil_append, List.length_nil, Silent, iff_true]
    have hh := h.head?_append y
    cases ht : t ++ y with
    | nil =>
      rw [ht] at hh
      simp [Text.leftmost?, hh]
    | cons c r =>
      rw [ht] at hh
      simp [Text.leftmost?, hh]
  | cons c u ih =>
    have hn := h.head?_eq_none_iff (c :: u) y
    rw [List.cons_append, List.cons_append] at hn
    rw [List.cons_append, Text.leftmost?, Silent, ← hn, ← ih]
    split
    · rename_i a ha
      simp [ha]
    · rename_i ha
      simp [ha]

end CSharpActions.Signature
