import CSharpActions.Text.Basic

/-!
# Character classes

A class of characters is a rising list of ranges of code points, both ends included.
-/
namespace CSharpActions.Text

abbrev Ranges := List (Nat × Nat)

/-- Membership of a code point; the search ends at the first range above it. -/
def Ranges.contains : Ranges → Nat → Bool
  | [], _ => false
  | (low, high) :: r, n => if n < low then false else n ≤ high || Ranges.contains r n

def Ranges.has (r : Ranges) (c : CodePoint) : Bool := r.contains c.toNat

theorem Ranges.exists_of_contains {r : Ranges} {n : Nat} (h : r.contains n = true) :
    ∃ p ∈ r, p.1 ≤ n ∧ n ≤ p.2 := by
  induction r with
  | nil => simp [Ranges.contains] at h
  | cons p r ih =>
    obtain ⟨low, high⟩ := p
    simp only [Ranges.contains] at h
    split at h
    · simp at h
    · rcases Bool.or_eq_true _ _ ▸ h with h | h
      · exact ⟨(low, high), by simp, by omega, by simpa using h⟩
      · obtain ⟨q, hq, hn⟩ := ih h
        exact ⟨q, by simp [hq], hn⟩

end CSharpActions.Text
