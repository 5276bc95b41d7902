import CSharpActions.Text.Basic

/-!
# Sizes of texts

How long a text can get is up to the machine: its length has to be a machine word, and there has to
be memory for it. Without a bound all texts can be built.
-/
namespace CSharpActions.Text

/-- For how many characters of a text there is memory; without a number no text is too long. -/
abbrev Room := Option Nat

/-- Why a text is not built. -/
inductive SizeError where
  /-- Its length, or the number of its copies, is no machine word. -/
  | overflow
  | memory
deriving DecidableEq, Repr

def SizeError.message : SizeError → Text
  | .overflow => "the size is no machine word"
  | .memory => "out of memory"

/-- The least number that is too great for a machine word, 2 to the power of 63. -/
def wordBound : Int := 0x8000000000000000

/-- What keeps a text of the given length from being built. -/
def sizeError? (room : Room) (size : Nat) : Option SizeError :=
  room.bind fun most =>
    if wordBound ≤ size then some .overflow
    else if most < size then some .memory
    else none

/-- What keeps copies of a text of the given length from being put together. -/
def copiesError? (room : Room) (size : Nat) (count : Int) : Option SizeError :=
  room.bind fun _ =>
    if count < -wordBound || wordBound ≤ count then some .overflow
    else sizeError? room (size * count.toNat)

/-- What keeps the first text that is too long from being built. -/
def firstError? (room : Room) (texts : List Text) : Option SizeError :=
  texts.findSome? fun t => sizeError? room t.length

@[simp]
theorem sizeError?_none (size : Nat) : sizeError? none size = none := rfl

@[simp]
theorem copiesError?_none (size : Nat) (count : Int) : copiesError? none size count = none := rfl

@[simp]
theorem firstError?_none (texts : List Text) : firstError? none texts = none := by
  simp [firstError?]

end CSharpActions.Text
