/-!
# The calendar

Dates of the proleptic Gregorian calendar from counts of days and seconds. The
year zero comes before the year one, and a day count of zero is the first of
January 1970.

## Main definitions

* `daysBeforeYear` — the days from the beginning of the year zero.
* `Date`, `Date.ofDays` — a date and the date of a day count.
* `Timestamp`, `Timestamp.stamp` — a moment and its text for file names.
* `Timestamp.ofNanoseconds` — the moment that a clock shows.

## Main statements

* `daysBeforeYear_succ` — a year has 365 days, or 366 if it is a leap year.
-/

namespace LaserPath

/-- Has a year a twenty-ninth of February? -/
def isLeapYear (year : Int) : Bool :=
  year % 4 == 0 && (year % 100 != 0 || year % 400 == 0)

/-- The days from the beginning of the year zero to the beginning of a year. -/
def daysBeforeYear (year : Int) : Int :=
  let last := year - 1
  365 * year + last / 4 - last / 100 + last / 400 + 1

theorem daysBeforeYear_succ (year : Int) :
    daysBeforeYear (year + 1) = daysBeforeYear year + if isLeapYear year then 366 else 365 := by
  have h4 : year / 4 = (year - 1) / 4 + if year % 4 = 0 then 1 else 0 := by split <;> omega
  have h100 : year / 100 = (year - 1) / 100 + if year % 100 = 0 then 1 else 0 := by
    split <;> omega
  have h400 : year / 400 = (year - 1) / 400 + if year % 400 = 0 then 1 else 0 := by
    split <;> omega
  by_cases m4 : year % 4 = 0 <;> by_cases m100 : year % 100 = 0 <;>
    by_cases m400 : year % 400 = 0 <;>
    simp [daysBeforeYear, isLeapYear, m4, m100, m400] at h4 h100 h400 ⊢ <;> omega

/-- The days of the twelve months. -/
def monthLengths (year : Int) : List Nat :=
  [31, if isLeapYear year then 29 else 28, 31, 30, 31, 30, 31, 31, 30, 31, 30, 31]

/-- The month in which a day of the year lies, counted from `month`, and the
day of that month, both counted from one. Days are counted from zero. -/
def monthOfDay (month day : Nat) : List Nat → Nat × Nat
  | [] => (month, day + 1)
  | length :: rest =>
    if day < length then (month, day + 1) else monthOfDay (month + 1) (day - length) rest

/-- A date. -/
structure Date where
  year : Int
  month : Nat
  day : Nat
  deriving DecidableEq, Repr

namespace Date

/-- The year of a count of days from the beginning of the year zero. Four
centuries have 146097 days, so the quotient is off by one year at most. -/
def yearOfDays (days : Int) : Int :=
  let guess := 400 * days / 146097
  if daysBeforeYear (guess + 1) ≤ days then guess + 1
  else if days < daysBeforeYear guess then guess - 1
  else guess

/-- The date of a count of days from the first of January 1970. -/
def ofDays (days : Int) : Date :=
  let days := days + 719528
  let year := yearOfDays days
  let (month, day) := monthOfDay 1 (days - daysBeforeYear year).toNat (monthLengths year)
  ⟨year, month, day⟩

example : ofDays 0 = ⟨1970, 1, 1⟩ := by decide
example : ofDays (-1) = ⟨1969, 12, 31⟩ := by decide
example : ofDays 11016 = ⟨2000, 2, 29⟩ := by decide

end Date

/-- The digits of a natural, with zeros in front up to a width. -/
def paddedDigits (width n : Nat) : String :=
  let digits := Nat.toDigits 10 n
  String.ofList (List.replicate (width - digits.length) '0' ++ digits)

/-- A year with four digits; outside the years 0 to 9999 it has a sign. -/
def yearText (year : Int) : String :=
  let digits := paddedDigits 4 year.natAbs
  if year < 0 then "-" ++ digits else if 9999 < year then "+" ++ digits else digits

/-- A moment, in seconds from the beginning of 1970 in universal time. -/
structure Timestamp where
  seconds : Int
  deriving DecidableEq, Repr

namespace Timestamp

/-- The moment of a count of nanoseconds. What is less than a second is left out. -/
def ofNanoseconds (n : Int) : Timestamp := ⟨n / 1000000000⟩

/-- The date of a moment. -/
def date (t : Timestamp) : Date := Date.ofDays (t.seconds / 86400)

/-- The second of the day. -/
def secondOfDay (t : Timestamp) : Nat := (t.seconds % 86400).toNat

/-- Date and time for file names: year, month and day, a `T`, and hour, minute
and second, with hyphens between. -/
def stamp (t : Timestamp) : String :=
  let date := t.date
  let second := t.secondOfDay
  yearText date.year ++ "-" ++ paddedDigits 2 date.month ++ "-" ++ paddedDigits 2 date.day ++
    "T" ++ paddedDigits 2 (second / 3600) ++ "-" ++ paddedDigits 2 (second / 60 % 60) ++ "-" ++
    paddedDigits 2 (second % 60)

end Timestamp

end LaserPath
