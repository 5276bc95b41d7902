import CSharpActions.Text.Decimal

/-!
# Binary floating point

The numbers of the IEEE 754 format with 53 bits of precision, as exact values: a finite number is
an integer times a power of two. Reading a decimal rounds to the nearest number, and to the even
one of two; writing takes the fewest decimal digits that read back.
-/
namespace CSharpActions

inductive Binary64 where
  /-- The integer `mantissa` times two to the `exponent`, negated if `negative`. -/
  | finite (negative : Bool) (mantissa : Nat) (exponent : Int)
  | infinite (negative : Bool)
  | nan
deriving DecidableEq, Repr

namespace Binary64

/-- The least exponent of a finite number. -/
def minExponent : Int := -1074

/-- The greatest exponent of a finite number. -/
def maxExponent : Int := 971

/-- The quotient rounded to the nearest integer, and to the even one of two. -/
def roundDiv (num den : Nat) : Nat :=
  let q := num / den
  let r := num % den
  if 2 * r < den || (2 * r == den && q % 2 == 0) then q else q + 1

/-- A power, split into the factor of a numerator and that of a denominator. -/
def powerSplit (base : Nat) (e : Int) : Nat × Nat := (base.pow e.toNat, base.pow (-e).toNat)

/-- The least integer with as many binary digits as a finite number keeps. -/
def fullWidth : Nat := 0x10000000000000

/-- The number nearest to a positive quotient. -/
def ofRatio (negative : Bool) (num den : Nat) : Binary64 :=
  let s : Int := (Nat.log2 num : Int) - Nat.log2 den
  let (up, down) := powerSplit 2 s
  let s := if num * down < den * up then s - 1 else s
  let q := max (s - 52) minExponent
  let (up, down) := powerSplit 2 q
  let m := roundDiv (num * down) (den * up)
  let (m, q) := if m = 2 * fullWidth then (fullWidth, q + 1) else (m, q)
  if maxExponent < q then .infinite negative else .finite negative m q

/-- The number nearest to `digits` times ten to the `exponent`. Far outside the range of finite
numbers the answer is known without the power; a binary digit is 0.30103 decimal ones. -/
def ofDecimal (negative : Bool) (digits : Nat) (exponent : Int) : Binary64 :=
  if digits = 0 then .finite negative 0 minExponent
  else
    let size : Int := (Nat.log2 digits * 30103 / 100000 : Nat) + exponent
    if 400 < size then .infinite negative
    else if size < -400 then .finite negative 0 minExponent
    else
      let (up, down) := powerSplit 10 exponent
      ofRatio negative (digits * up) down

/-- The integer part of a finite number. -/
def truncate? : Binary64 → Option Int
  | .finite negative m q =>
    let (up, down) := powerSplit 2 q
    let n : Int := (m * up / down : Nat)
    some (if negative then -n else n)
  | _ => none

/-- The least `j` from the given one with `num * 10 ^ j ≥ den`, within the fuel. -/
def leadingZeros (num den : Nat) : Nat → Nat → Nat
  | 0, j => j
  | fuel + 1, j => if den ≤ num * Nat.pow 10 j then j else leadingZeros num den fuel (j + 1)

/-- The exponent of the first decimal digit of a positive quotient. -/
def decimalExponent (num den : Nat) : Int :=
  if den ≤ num then (Text.ofNat (num / den)).length - 1 else -leadingZeros num den 400 1

/-- The integer on the grid of multiples of ten to the `k` that reads back as `m * 2 ^ q`, the
nearest one if there are two. The three bounds are the ends of the interval that rounds to the
number and the number itself, in quarters of its last place. -/
def onGrid? (m : Nat) (q k : Int) : Option Nat :=
  let (up2, down2) := powerSplit 2 (q - 2)
  let (up10, down10) := powerSplit 10 k
  let scaled (x : Nat) : Nat := x * up2 * down10
  let grid (a : Nat) : Nat := a * up10 * down2
  let low := if m = fullWidth && minExponent < q then 4 * m - 1 else 4 * m - 2
  let high := 4 * m + 2
  let closed := m % 2 == 0
  let inside (a : Nat) : Bool :=
    if closed then scaled low ≤ grid a && grid a ≤ scaled high
    else scaled low < grid a && grid a < scaled high
  let a := scaled (4 * m) / grid 1
  if inside a then
    if inside (a + 1) then
      let middle := grid a + grid (a + 1)
      let value := 2 * scaled (4 * m)
      if value < middle || (value == middle && a % 2 == 0) then some a else some (a + 1)
    else some a
  else if inside (a + 1) then some (a + 1)
  else none

/-- Tries the grids with `count`, `count + 1`, … digits. -/
def shortestFrom (m : Nat) (q e : Int) : Nat → Nat → Nat × Int
  | 0, _ => (0, 0)
  | fuel + 1, count =>
    let k := e - count + 1
    match onGrid? m q k with
    | some a => (a, k)
    | none => shortestFrom m q e fuel (count + 1)

/-- The fewest digits that read back as the positive number `m * 2 ^ q`, as an integer and a power
of ten. -/
def shortest (m : Nat) (q : Int) : Nat × Int :=
  let (up, down) := powerSplit 2 q
  shortestFrom m q (decimalExponent (m * up) down) 17 1

/-- Digits and the place of the point after them: positional from ten to the minus four up to ten
to the sixteen, else with an exponent of at least two digits. -/
def layout (digits : Text) (point : Int) : Text :=
  if -4 < point && point ≤ 16 then
    if point ≤ 0 then "0." ++ Text.copies (-point).toNat '0' ++ digits
    else
      let whole := digits.take point.toNat
      let part := digits.drop point.toNat
      whole ++ Text.copies (point.toNat - digits.length) '0' ++ "." ++
        (if part.isEmpty then [.char '0'] else part)
  else
    let e := point - 1
    let size := Text.ofNat e.natAbs
    digits.take 1 ++ (if digits.length > 1 then .char '.' :: digits.drop 1 else []) ++ "e" ++
      (if e < 0 then "-" else "+") ++ (if size.length < 2 then .char '0' :: size else size)

/-- The text of a number with the given words for the infinite and the undefined one. -/
def render (infinity nan : Text) : Binary64 → Text
  | .nan => nan
  | .infinite negative => (if negative then "-" else "") ++ infinity
  | .finite negative m q =>
    let body : Text :=
      if m = 0 then "0.0"
      else
        let (d, k) := shortest m q
        let digits := Text.ofNat d
        layout (Text.dropEndWhile (· = .char '0') digits) (digits.length + k)
    (if negative then "-" else "") ++ body

end Binary64

end CSharpActions
