import CSharpActions.Text.Decimal

/-!
# Moments of time

A moment is a number of seconds since the beginning of 1970, and is written as a date and a time of
day in UTC. Years are counted from March on, so that the day added in a leap year is the last one.
-/
namespace CSharpActions.Report

structure Date where
  year : Nat
  month : Nat
  day : Nat
deriving DecidableEq, Repr

/-- The days from March of year zero to the beginning of 1970. -/
def daysBefore1970 : Nat := 719468

/-- The date of the day with the given number, counted from the beginning of 1970. -/
def dateOfDay (n : Nat) : Date :=
  let n := n + daysBefore1970
  let dayOfEra := n % 146097
  let yearOfEra := (dayOfEra - dayOfEra / 1460 + dayOfEra / 36524 - dayOfEra / 146096) / 365
  let dayOfYear := dayOfEra - (365 * yearOfEra + yearOfEra / 4 - yearOfEra / 100)
  let monthFromMarch := (5 * dayOfYear + 2) / 153
  let month := if monthFromMarch < 10 then monthFromMarch + 3 else monthFromMarch - 9
  { year := yearOfEra + n / 146097 * 400 + if month ≤ 2 then 1 else 0
    month
    day := dayOfYear - (153 * monthFromMarch + 2) / 5 + 1 }

def twoDigits (n : Nat) : Text := if n < 10 then '0' :: Text.ofNat n else Text.ofNat n

def momentText (seconds : Nat) : Text :=
  let date := dateOfDay (seconds / 86400)
  let time := seconds % 86400
  Text.ofNat date.year ++ "-" ++ twoDigits date.month ++ "-" ++ twoDigits date.day ++ "T" ++
    twoDigits (time / 3600) ++ ":" ++ twoDigits (time / 60 % 60) ++ ":" ++ twoDigits (time % 60) ++
    "Z"

example : dateOfDay 0 = ⟨1970, 1, 1⟩ := by decide

example : dateOfDay 19782 = ⟨2024, 2, 29⟩ := by decide

example : dateOfDay 19783 = ⟨2024, 3, 1⟩ := by decide

end CSharpActions.Report
