import CSharpActions.Declaration.Signature
import CSharpActions.Text.LetterCase
import Mathlib.Data.List.Dedup

/-!
# Letters in any case

Two characters are one letter but for the case if they have the same capital, or if the small form
of the one begins with the other. For the letters that modifiers are made of, these are the
characters that the detector of signatures takes.
-/
namespace CSharpActions

theorem CodePoint.toNat_of_ofNat_eq {n : Nat} {c : CodePoint} (h : ofNat n = c)
    (hc : c.toNat ≠ 0) : n = c.toNat := by
  subst h
  by_cases hn : n < 0x110000
  · exact (toNat_ofNat hn).symm
  · have hs : ¬(0xD800 ≤ n ∧ n < 0xE000) := by omega
    have hv : ¬n.isValidChar := by
      simp only [Nat.isValidChar]
      omega
    rw [ofNat, dif_neg hs, Char.ofNat, dif_neg hv] at hc
    exact absurd rfl hc

namespace Text

/-- The second character is the first one in some case. -/
def IsCaseOf (p c : CodePoint) : Prop := upper c = upper p ∨ (lower c).head? = some p

instance (p c : CodePoint) : Decidable (IsCaseOf p c) := inferInstanceAs (Decidable (_ ∨ _))

variable {p c x : CodePoint} {expansions : List (Nat × List Nat)} {runs : List CaseRun}

theorem mapCase_cases (expansions : List (Nat × List Nat)) (runs : List CaseRun) (c : CodePoint) :
    (∃ codes, (c.toNat, codes) ∈ expansions ∧
      mapCase expansions runs c = codes.map CodePoint.ofNat) ∨
    (∃ r ∈ runs, r.first ≤ c.toNat ∧ c.toNat ≤ r.last ∧
      mapCase expansions runs c = [.ofNat ((c.toNat : Int) + r.shift).toNat]) ∨
    mapCase expansions runs c = [c] := by
  unfold mapCase
  split
  · rename_i codes h
    obtain ⟨l₁, l₂, rfl, -⟩ := List.lookup_eq_some_iff.mp h
    exact Or.inl ⟨codes, by simp, rfl⟩
  · refine Or.inr ?_
    split
    · rename_i r h
      have hcovers := List.find?_some h
      simp only [CaseRun.covers, Bool.and_eq_true, decide_eq_true_eq] at hcovers
      exact Or.inl ⟨r, List.mem_of_find?_eq_some h, hcovers.1.1, hcovers.1.2, rfl⟩
    · exact Or.inr rfl

/-- Whether the run leads to the code point `n` from one of the sources or not at all. -/
def CaseRun.isFrom (sources : List Nat) (n : Nat) (r : CaseRun) : Bool :=
  (n : Int) < r.first + r.shift || r.last + r.shift < n ||
    sources.contains ((n : Int) - r.shift).toNat

/-- A character with the case mapping `x :: rest` is `x` itself, or stands in the tables. -/
theorem mem_of_mapCase {rest : Text} {sources : List Nat}
    (h : mapCase expansions runs c = x :: rest) (hx : x.toNat ≠ 0) (hself : x.toNat ∈ sources)
    (hexpansions : ∀ e ∈ expansions, e.2.length = rest.length + 1 → e.1 ∈ sources)
    (hruns : ∀ r ∈ runs, r.isFrom sources x.toNat = true) : c.toNat ∈ sources := by
  rcases mapCase_cases expansions runs c with ⟨codes, hmem, he⟩ | ⟨r, hr, hlow, hhigh, he⟩ | he
  · refine hexpansions _ hmem ?_
    have hlen := congrArg List.length (he.symm.trans h)
    simpa using hlen
  · obtain ⟨hc, -⟩ := List.cons.inj (he.symm.trans h)
    have hn := CodePoint.toNat_of_ofNat_eq hc hx
    have hfrom := hruns r hr
    simp only [CaseRun.isFrom, Bool.or_eq_true, decide_eq_true_eq, List.contains_iff_mem] at hfrom
    have hsource : ((x.toNat : Int) - r.shift).toNat = c.toNat := by omega
    rw [hsource] at hfrom
    exact hfrom.resolve_left (by omega)
  · obtain ⟨rfl, -⟩ := List.cons.inj (he.symm.trans h)
    exact hself

end Text

namespace Signature

open Text (IsCaseOf)

/-- The letters of the modifiers. -/
def letters : Text := PropertyDecl.modifiers.flatten.dedup

/-- The numbers of a small letter, of its capital, and of the two forms of i outside of ASCII. -/
def forms (p : CodePoint) : List Nat := [p.toNat, p.toNat - 32, 304, 305]

variable {p c : CodePoint}

theorem mem_forms_of_matchesLetter (hp : p ∈ letters) (h : matchesLetter p c = true) :
    c.toNat ∈ forms p := by
  have hascii : ∀ p ∈ letters, p.toNat < 128 := by decide
  simp only [matchesLetter, Bool.or_eq_true, Bool.and_eq_true, decide_eq_true_eq] at h
  rcases h with rfl | ⟨-, rfl | rfl⟩
  · have hlt := hascii _ hp
    cases c with
    | surrogate o =>
      simp only [CodePoint.toLower, CodePoint.toNat] at hlt
      omega
    | char ch =>
      rw [CodePoint.toLower]
      delta Char.toLower
      split
      · rename_i hu
        have hle : ch.toNat ≤ 90 := by simpa [UInt32.le_iff_toNat_le] using hu.2
        have hsum : (ch.val + ('a'.val - 'A'.val)).toNat = ch.toNat + 32 := by
          rw [UInt32.toNat_add]
          exact Nat.mod_eq_of_lt (Nat.lt_of_le_of_lt (Nat.add_le_add_right hle 32) (by decide))
        refine List.mem_cons_of_mem _ (List.mem_cons.mpr (Or.inl ?_))
        exact (Nat.sub_eq_of_eq_add hsum).symm
      · exact List.mem_cons_self
  · simp [forms, CodePoint.toNat]
  · simp [forms, CodePoint.toNat]

theorem mem_forms_of_isCaseOf (hp : p ∈ letters) (h : IsCaseOf p c) : c.toNat ∈ forms p := by
  rcases h with h | h
  · have hupper : ∀ p ∈ letters, ∃ x ∈ (Text.upper p).head?, Text.upper p = [x] ∧ x.toNat ≠ 0 ∧
        x.toNat ∈ forms p ∧ ∀ r ∈ Text.upperRuns, r.isFrom (forms p) x.toNat = true := by
      decide +kernel
    obtain ⟨x, -, hx, hne, hself, hruns⟩ := hupper p hp
    have hexpansions : ∀ e ∈ Text.upperExpansions, e.2.length ≠ 1 := by decide
    exact Text.mem_of_mapCase (h.trans hx) hne hself (fun e he hl => absurd hl (hexpansions e he))
      hruns
  · have hlower : ∀ p ∈ letters, p.toNat ≠ 0 ∧
        ∀ r ∈ Text.lowerRuns, r.isFrom (forms p) p.toNat = true := by
      decide +kernel
    obtain ⟨rest, hrest⟩ := List.head?_eq_some_iff.mp h
    obtain ⟨hne, hruns⟩ := hlower p hp
    refine Text.mem_of_mapCase hrest hne List.mem_cons_self (fun e he _ => ?_) hruns
    rw [List.mem_singleton.mp he]
    simp [forms]

/-- The detector of signatures takes a letter in any case. -/
theorem matchesLetter_iff (hp : p ∈ letters) : matchesLetter p c = true ↔ IsCaseOf p c := by
  have hforms : ∀ p ∈ letters, ∀ n ∈ forms p,
      (matchesLetter p (.ofNat n) = true ↔ IsCaseOf p (.ofNat n)) := by
    decide +kernel
  have hc := CodePoint.ofNat_toNat c
  constructor
  · intro h
    have hiff := hforms p hp _ (mem_forms_of_matchesLetter hp h)
    rw [hc] at hiff
    exact hiff.mp h
  · intro h
    have hiff := hforms p hp _ (mem_forms_of_isCaseOf hp h)
    rw [hc] at hiff
    exact hiff.mpr h

end Signature

end CSharpActions
