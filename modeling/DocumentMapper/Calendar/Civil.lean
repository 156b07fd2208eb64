/-!
# The civil calendar

Days are counted from the first of January of year 1 in the Gregorian rule, extended backwards.
`dayNumber` counts the days before a date and `ofDayNumber` finds the date again by taking off
whole cycles of 400, 100, 4 and 1 years, then whole months.
-/

namespace DocumentMapper.Calendar

structure Date where
  year : Nat
  month : Nat
  day : Nat
  deriving DecidableEq, Repr

def isLeap (year : Nat) : Bool :=
  year % 4 == 0 && (year % 100 != 0 || year % 400 == 0)

/-- Lengths of the twelve months. -/
def monthLengths (leap : Bool) : List Nat :=
  [31, if leap then 29 else 28, 31, 30, 31, 30, 31, 31, 30, 31, 30, 31]

def daysInMonth (year month : Nat) : Nat :=
  (monthLengths (isLeap year))[month - 1]?.getD 0

/-- Days before the first of January of a year. -/
def daysBeforeYear (year : Nat) : Nat :=
  let past := year - 1
  365 * past + past / 4 - past / 100 + past / 400

def daysBeforeMonth (year month : Nat) : Nat :=
  ((monthLengths (isLeap year)).take (month - 1)).foldl (· + ·) 0

/-- Days before a date, counted from year 1. -/
def Date.dayNumber (date : Date) : Nat :=
  daysBeforeYear date.year + daysBeforeMonth date.year date.month + (date.day - 1)

/-- Month and day of a day of the year, both counted from zero. -/
def splitMonths : List Nat → Nat → Nat × Nat
  | [], day => (0, day)
  | length :: rest, day =>
    if day < length then (0, day)
    else
      let (month, left) := splitMonths rest (day - length)
      (month + 1, left)

/-- The year of a day number and the days of it that are past. -/
def splitYear (number : Nat) : Nat × Nat :=
  let rest400 := number % 146097
  let centuries := min (rest400 / 36524) 3
  let rest100 := rest400 - 36524 * centuries
  let rest4 := rest100 % 1461
  let years := min (rest4 / 365) 3
  (400 * (number / 146097) + 100 * centuries + 4 * (rest100 / 1461) + years + 1,
    rest4 - 365 * years)

def Date.ofDayNumber (number : Nat) : Date :=
  let (year, day) := splitYear number
  let (month, left) := splitMonths (monthLengths (isLeap year)) day
  ⟨year, month + 1, left + 1⟩

/-- The year of a day number before or after year 1. -/
def yearOfDay (number : Int) : Int :=
  400 * number.fdiv 146097 + (splitYear (number.fmod 146097).toNat).1

/-- Days since Monday; the first day of year 1 was one. -/
def weekday (number : Nat) : Nat :=
  number % 7

/-- The Monday of the first week that has its Thursday in the year, as a day number. -/
def firstMonday (year : Nat) : Int :=
  let january := daysBeforeYear year
  let past := weekday january
  if past ≤ 3 then (january : Int) - past else (january : Int) + 7 - past

/-- A year has 53 weeks when it starts on a Thursday, or on a Wednesday if it is a leap year. -/
def weeksInYear (year : Nat) : Nat :=
  let start := weekday (daysBeforeYear year)
  if start = 3 ∨ (start = 2 ∧ isLeap year) then 53 else 52

/-- Days of the years 1 to 9999. -/
def dayCount : Nat := daysBeforeYear 10000

example : dayCount = 3652059 := by decide

example : Date.dayNumber ⟨1970, 1, 1⟩ = 719162 := by decide

example : Date.ofDayNumber 738944 = ⟨2024, 2, 29⟩ := by decide

end DocumentMapper.Calendar
