import CSharpActions.Text.Blank
import CSharpActions.Text.Digit
import CSharpActions.Text.Decimal
import CSharpActions.Text.Quoted

/-!
# Reading and writing integers

An integer has an optional sign and decimal digits of any script, with single underscores
between digits and blanks around the whole.
-/
namespace CSharpActions.Text

inductive IntegerError where
  /-- The text is not an integer. -/
  | malformed (text : Text)
  /-- The integer has more digits than can be read. -/
  | tooLong (digits : Nat)
  /-- The integer has more digits than can be written. -/
  | unwritable
deriving DecidableEq, Repr

/-- The most digits of an integer that is read or written. -/
def maxDigits : Nat := 4300

def IntegerError.message : IntegerError → Text
  | .malformed t => "invalid literal for int() with base 10: " ++ (quoted t).take 200
  | .tooLong n =>
    "Exceeds the limit (4300 digits) for integer string conversion: value has " ++ ofNat n ++
      " digits; use sys.set_int_max_str_digits() to increase the limit"
  | .unwritable =>
    "Exceeds the limit (4300 digits) for integer string conversion; " ++
      "use sys.set_int_max_str_digits() to increase the limit"

/-- Digits of other scripts become plain digits and blanks beyond ASCII become spaces; the text
ends at the first other character beyond ASCII, which becomes a question mark. -/
def plainNumeral : Text → Text
  | [] => []
  | c :: r =>
    if c.toNat < 127 then c :: plainNumeral r
    else if isBlank c then ' ' :: plainNumeral r
    else
      match decimalValue? c with
      | some d => digitChar d :: plainNumeral r
      | none => ['?']

/-- A blank at which a numeral may begin or end. -/
def isNumeralBlank (c : CodePoint) : Bool := c = ' ' || ('\t' ≤ c && c ≤ '\r')

/-- Reads the digits of a numeral: the digits without their underscores, whether each underscore
stands between two digits, and the rest. -/
def numeralDigits (afterDigit : Bool) : Text → Text × Bool × Text
  | [] => ([], afterDigit, [])
  | c :: r =>
    if isPlainDigit c then
      let (ds, ok, rest) := numeralDigits true r
      (c :: ds, ok, rest)
    else if c = '_' then
      let (ds, ok, rest) := numeralDigits false r
      (ds, ok && afterDigit, rest)
    else ([], afterDigit, c :: r)

/-- Writes an integer in decimal. -/
def writeInt (n : Int) : Except IntegerError Text :=
  if maxDigits < (ofNat n.natAbs).length then .error .unwritable else .ok (ofInt n)

def readInt (t : Text) : Except IntegerError Int :=
  let s := (plainNumeral t).dropWhile isNumeralBlank
  let (negative, s) :=
    match s with
    | .char '-' :: r => (true, r)
    | .char '+' :: r => (false, r)
    | r => (false, r)
  let (digits, ok, rest) := numeralDigits false s
  if !ok || digits.isEmpty then .error (.malformed t)
  else if maxDigits < digits.length then .error (.tooLong digits.length)
  else if rest.all isNumeralBlank then
    .ok (if negative then -(natOfDigits digits : Int) else natOfDigits digits)
  else .error (.malformed t)

end CSharpActions.Text
