import CreditScoringMlops.Python.Text
import Mathlib.Data.Nat.Basic

/-!
# Instants

A timezone-aware `datetime` in UTC is the number of microseconds since `datetime.min`. The
calendar is needed once, for the text of an instant in a recorded result.
-/

namespace CreditScoringMlops.Python

/-- Microseconds since 0001-01-01T00:00:00 UTC. -/
abbrev Time := ℕ

/-- The length of `timedelta(seconds=n)`. -/
def seconds (n : ℕ) : ℕ := n * 1000000

/-- Days of the months before month `m` of a common year. -/
def daysBeforeMonth : List ℕ := [0, 31, 59, 90, 120, 151, 181, 212, 243, 273, 304, 334]

/-- Leap years of the proleptic Gregorian calendar. -/
def isLeap (year : ℕ) : Bool := year % 4 == 0 && (year % 100 != 0 || year % 400 == 0)

/-- Days of year `year` before month `m`, counted from 0. -/
def daysBefore (year m : ℕ) : ℕ :=
  daysBeforeMonth.getD m 0 + if m ≥ 2 && isLeap year then 1 else 0

/-- Year, month and day of the day that lies `day` days after 0001-01-01. -/
def yearMonthDay (day : ℕ) : ℕ × ℕ × ℕ :=
  let n400 := day / 146097
  let r400 := day % 146097
  let n100 := min (r400 / 36524) 3
  let r100 := r400 - n100 * 36524
  let n4 := r100 / 1461
  let r4 := r100 % 1461
  let n1 := min (r4 / 365) 3
  let year := n400 * 400 + n100 * 100 + n4 * 4 + n1 + 1
  let dayOfYear := r4 - n1 * 365
  let month := ((List.range 12).filter fun m => daysBefore year m ≤ dayOfYear).length
  (year, month, dayOfYear - daysBefore year (month - 1) + 1)

/-- Decimal digits, padded with zeros to a width. -/
def padded (width n : ℕ) : String :=
  let digits := (Nat.toDigits 10 n)
  String.ofList (List.replicate (width - digits.length) '0' ++ digits)

/-- `datetime.isoformat()` in UTC: the fraction is printed only when it is not zero. -/
def isoformat (t : Time) : String :=
  let (year, month, day) := yearMonthDay (t / seconds 86400)
  let second := t % seconds 86400 / 1000000
  let micro := t % 1000000
  padded 4 year ++ "-" ++ padded 2 month ++ "-" ++ padded 2 day ++ "T" ++
    padded 2 (second / 3600) ++ ":" ++ padded 2 (second / 60 % 60) ++ ":" ++
    padded 2 (second % 60) ++ (if micro = 0 then "" else "." ++ padded 6 micro) ++ "+00:00"

end CreditScoringMlops.Python
