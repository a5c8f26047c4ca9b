/-!
Moments on a calendar. A calendar tells which dates there are and numbers their days; a moment is a
date and the nanoseconds of it that have passed. The Gregorian calendar is carried on to years
before its beginning and limited to years of four digits.
-/

namespace Reservoir

structure Date where
  year : Int
  month : Nat
  day : Nat
deriving DecidableEq, Repr

/-- A day and the nanoseconds of it that have passed. -/
structure Moment where
  date : Date
  time : Nat
deriving DecidableEq, Repr

namespace Moment

def secondLength : Nat := 1000000000

def dayLength : Nat := 86400 * secondLength

def second (m : Moment) : Nat := m.time / secondLength % 60

def minute (m : Moment) : Nat := m.time / secondLength / 60 % 60

def hour (m : Moment) : Nat := m.time / secondLength / 3600

def nanosecond (m : Moment) : Nat := m.time % secondLength

def midnight (date : Date) : Moment := ⟨date, 0⟩

def timeOf? (hour minute micros : Int) : Option Nat :=
  if 0 ≤ hour ∧ hour < 24 ∧ 0 ≤ minute ∧ minute < 60 ∧ 0 ≤ micros ∧ micros < 60000000 then
    some (((hour * 60 + minute) * 60000000 + micros) * 1000).toNat
  else none

end Moment

/-- What a calendar is used for. -/
structure Calendar where
  isDate : Date → Bool
  dayNumber : Date → Int
  ofDayNumber? : Int → Option Date

namespace Calendar

def date? (calendar : Calendar) (year month day : Int) : Option Date :=
  let date : Date := ⟨year, month.toNat, day.toNat⟩
  if 1 ≤ month ∧ month ≤ 12 ∧ 0 ≤ day ∧ day < 256 ∧ calendar.isDate date then some date else none

def instant (calendar : Calendar) (m : Moment) : Int :=
  calendar.dayNumber m.date * Moment.dayLength + m.time

def ofInstant? (calendar : Calendar) (n : Int) : Option Moment :=
  (calendar.ofDayNumber? (n / Moment.dayLength)).map fun date =>
    ⟨date, (n % Moment.dayLength).toNat⟩

def add? (calendar : Calendar) (m : Moment) (n : Int) : Option Moment :=
  calendar.ofInstant? (calendar.instant m + n)

/-- The time from one moment to another in days: whole seconds and the rest are added as numbers
before the division. -/
def daysBetween (calendar : Calendar) (start m : Moment) : Float :=
  let n := calendar.instant m - calendar.instant start
  (Float.ofInt (n.tdiv Moment.secondLength)
    + Float.ofInt (n.tmod Moment.secondLength) / 1000000000) / 86400

def start? (calendar : Calendar) : List Int → Option Moment
  | day :: month :: year :: hour :: minute :: micros :: _ => do
    return ⟨← calendar.date? year month day, ← Moment.timeOf? hour minute micros⟩
  | day :: month :: year :: _ => (calendar.date? year month day).map .midnight
  | _ => none

end Calendar

namespace Gregorian

def isLeap (year : Int) : Bool :=
  year % 4 == 0 && (year % 100 != 0 || year % 400 == 0)

def monthLengths (year : Int) : List Nat :=
  [31, if isLeap year then 29 else 28, 31, 30, 31, 30, 31, 31, 30, 31, 30, 31]

def isDate (d : Date) : Bool :=
  -9999 ≤ d.year && d.year ≤ 9999 && 1 ≤ d.month && 1 ≤ d.day
    && d.day ≤ (monthLengths d.year).getD (d.month - 1) 0

def daysBefore (year : Int) : Int :=
  365 * (year - 1) + (year - 1) / 4 - (year - 1) / 100 + (year - 1) / 400

def dayNumber (d : Date) : Int :=
  daysBefore d.year + ((monthLengths d.year).take (d.month - 1)).foldr Nat.add 0 + d.day - 1

/-- The year of a day; the mean length of a year points at it or at a neighbour. -/
def yearOf (n : Int) : Int :=
  let guess := n * 400 / 146097 + 1
  if n < daysBefore guess then guess - 1
  else if daysBefore (guess + 1) ≤ n then guess + 1
  else guess

def monthsBefore : List Nat → Nat → Nat × Nat
  | [], day => (0, day)
  | length :: lengths, day =>
    if day < length then (0, day)
    else
      let (months, rest) := monthsBefore lengths (day - length)
      (months + 1, rest)

def ofDayNumber? (n : Int) : Option Date :=
  let year := yearOf n
  let (months, days) := monthsBefore (monthLengths year) (n - daysBefore year).toNat
  let date : Date := ⟨year, months + 1, days + 1⟩
  if isDate date then some date else none

end Gregorian

def Calendar.gregorian : Calendar :=
  ⟨Gregorian.isDate, Gregorian.dayNumber, Gregorian.ofDayNumber?⟩

end Reservoir
