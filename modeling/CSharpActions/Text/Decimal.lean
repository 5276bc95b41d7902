import CSharpActions.Text.Basic

/-!
# Decimal numerals

Writing integers in decimal, and reading a run of plain digits.
-/
namespace CSharpActions.Text

def digitChar (n : Nat) : CodePoint := .char (Char.ofNat (48 + n))

/-- The decimal digits of a number, without leading zeros. -/
def ofNat (n : Nat) : Text :=
  if n < 10 then [digitChar n] else ofNat (n / 10) ++ [digitChar (n % 10)]

def ofInt : Int → Text
  | .ofNat n => ofNat n
  | .negSucc n => '-' :: ofNat (n + 1)

/-- A digit from zero to nine. -/
def isPlainDigit (c : CodePoint) : Bool := '0' ≤ c && c ≤ '9'

/-- The number that a run of plain digits stands for. -/
def natOfDigits (t : Text) : Nat := t.foldl (fun n c => 10 * n + (c.toNat - 48)) 0

end CSharpActions.Text
