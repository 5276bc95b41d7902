import CSharpActions.Text.Printable

/-!
# Quoted text

A quoted text stands between single quotes, or between double quotes when it holds a single
quote and no double quote. The quote and the backslash are escaped, and a character that is not
printable is shown by its code point.
-/
namespace CSharpActions.Text

def hexDigit (n : Nat) : CodePoint := .ofNat (if n < 10 then 48 + n else 87 + n)

/-- The last `width` hexadecimal digits of a number. -/
def hex : Nat → Nat → Text
  | 0, _ => []
  | width + 1, n => hex width (n / 16) ++ [hexDigit (n % 16)]

def quoteOf (t : Text) : CodePoint :=
  if t.contains (.char '\'') && !t.contains (.char '"') then '"' else '\''

def escape (quote : CodePoint) (c : CodePoint) : Text :=
  if c = quote || c = '\\' then ['\\', c]
  else if c = '\n' then ['\\', 'n']
  else if c = '\r' then ['\\', 'r']
  else if c = '\t' then ['\\', 't']
  else if isPrintable c then [c]
  else if c.toNat < 0x100 then '\\' :: 'x' :: hex 2 c.toNat
  else if c.toNat < 0x10000 then '\\' :: 'u' :: hex 4 c.toNat
  else '\\' :: 'U' :: hex 8 c.toNat

def quoted (t : Text) : Text := quoteOf t :: t.flatMap (escape (quoteOf t)) ++ [quoteOf t]

end CSharpActions.Text
