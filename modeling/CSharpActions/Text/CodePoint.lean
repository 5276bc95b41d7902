/-!
# Code points

A code point is a character or one half of a surrogate pair that stands alone. No encoded file
holds such a half, but an escape in a JSON string can name one.
-/
namespace CSharpActions

inductive CodePoint where
  | char (c : Char)
  /-- Half of a pair, by its distance from the first one, U+D800. -/
  | surrogate (offset : Fin 2048)
deriving DecidableEq, Repr

namespace CodePoint

instance : Coe Char CodePoint := ⟨.char⟩

def toNat : CodePoint → Nat
  | .char c => c.toNat
  | .surrogate offset => 0xD800 + offset

instance : Hashable CodePoint := ⟨fun c => hash c.toNat⟩

/-- The code point with the given number. -/
def ofNat (n : Nat) : CodePoint :=
  if h : 0xD800 ≤ n ∧ n < 0xE000 then .surrogate ⟨n - 0xD800, by omega⟩ else .char (Char.ofNat n)

/-- Order by number. -/
instance : LE CodePoint := ⟨fun a b => a.toNat ≤ b.toNat⟩

instance (a b : CodePoint) : Decidable (a ≤ b) := inferInstanceAs (Decidable (a.toNat ≤ b.toNat))

/-- The character, unless the code point is half of a pair. -/
def char? : CodePoint → Option Char
  | .char c => some c
  | .surrogate _ => none

/-- Whether the code point stands for a byte, in the name of a file that is not UTF-8: the halves
from U+DC80 to U+DCFF do. -/
def isByte : CodePoint → Bool
  | .char _ => false
  | .surrogate offset => 0x480 ≤ offset.val && offset.val < 0x500

/-- The small letter for a capital letter of ASCII. -/
def toLower : CodePoint → CodePoint
  | .char c => .char c.toLower
  | .surrogate offset => .surrogate offset

theorem toNat_ofNat {n : Nat} (h : n < 0x110000) : (ofNat n).toNat = n := by
  unfold ofNat
  split
  · rename_i hs
    simp only [toNat]
    omega
  · rename_i hs
    have hv : n.isValidChar := by
      simp only [Nat.isValidChar]
      omega
    change (Char.ofNat n).toNat = n
    rw [Char.ofNat, dif_pos hv]
    rfl

theorem ofNat_toNat (c : CodePoint) : ofNat c.toNat = c := by
  cases c with
  | char c =>
    have := c.valid
    simp only [UInt32.isValidChar, Nat.isValidChar] at this
    have hn : ¬(0xD800 ≤ c.toNat ∧ c.toNat < 0xE000) := by
      simp only [Char.toNat]
      omega
    simp [ofNat, toNat, hn]
  | surrogate offset =>
    have := offset.isLt
    simp [ofNat, toNat]
    omega

end CodePoint

end CSharpActions
