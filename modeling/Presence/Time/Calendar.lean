/-
Presence/Time/Calendar.lean

The proleptic Gregorian calendar: dates and day numbers.

Days are numbered from 1970-01-01, which is day 0.  Inside, years are laid out
from 0001-01-01, because the number of days before a year is then one formula
in floor divisions (`daysBeforeYear`).  The year of a day is estimated from the
mean length of a year and moved by at most one; the month is found by walking
the twelve month lengths.

`Date.toDays` and `Date.ofDays` go from dates to day numbers and back.
-/

namespace Presence

/-- Every fourth year, without the centuries that 400 does not divide. -/
def isLeapYear (y : Int) : Bool := y % 4 == 0 && (y % 100 != 0 || y % 400 == 0)

/-- The lengths of the twelve months. -/
def monthLengths (leap : Bool) : List Nat :=
  [31, if leap then 29 else 28, 31, 30, 31, 30, 31, 31, 30, 31, 30, 31]

/-- Days from 0001-01-01 to the start of a year. -/
def daysBeforeYear (y : Int) : Int :=
  365 * (y - 1) + (y - 1) / 4 - (y - 1) / 100 + (y - 1) / 400

/-- The year in which the day lies that is `n` days after 0001-01-01. -/
def yearOfDay (n : Int) : Int :=
  let guess := n * 400 / 146097 + 1
  if n < daysBeforeYear guess then guess - 1
  else if daysBeforeYear (guess + 1) ≤ n then guess + 1
  else guess

/-- Days from 0001-01-01 to 1970-01-01. -/
def daysBefore1970 : Int := 719162

/-- Month and day of the day that is `n` days into the given months, the first of which has the
number `month`. -/
def monthAndDay (n : Nat) (month : Nat) : List Nat → Nat × Nat
  | [] => (month, n + 1)
  | len :: rest => if n < len then (month, n + 1) else monthAndDay (n - len) (month + 1) rest

/-- A date of the calendar. -/
structure Date where
  /-- The year; the year before 1 is 0, and the one before that -1. -/
  year : Int
  /-- The month, from 1 to 12. -/
  month : Nat
  /-- The day of the month, from 1. -/
  day : Nat
  deriving DecidableEq, Repr

namespace Date

/-- The date occurs in the calendar. -/
def Valid (d : Date) : Prop :=
  1 ≤ d.month ∧ d.month ≤ 12 ∧ 1 ≤ d.day ∧
    d.day ≤ (monthLengths (isLeapYear d.year)).getD (d.month - 1) 0

instance (d : Date) : Decidable d.Valid := inferInstanceAs (Decidable (_ ∧ _ ∧ _ ∧ _))

/-- Days since 1970-01-01. -/
def toDays (d : Date) : Int :=
  daysBeforeYear d.year - daysBefore1970 +
    (((monthLengths (isLeapYear d.year)).take (d.month - 1)).foldr (· + ·) 0 + d.day - 1 : Nat)

/-- The date that is `n` days after 1970-01-01. -/
def ofDays (n : Int) : Date :=
  let day := n + daysBefore1970
  let year := yearOfDay day
  let md := monthAndDay (day - daysBeforeYear year).toNat 1 (monthLengths (isLeapYear year))
  ⟨year, md.1, md.2⟩

end Date

end Presence
