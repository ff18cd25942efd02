/-
Presence/Time/Timestamp/Reader.lean

Reading timestamps.

The reader is more lenient than the writer.  Blanks may stand in front of every
number, in front of a hyphen or colon between numbers and around the zone.
Numbers may be short: a year has up to four digits, or a sign and any number of
them, and each other part has one or two.  Date and time are parted by `T`, `t`
or one space.  Seconds are required and may be 60; a fraction has at least one
digit, and those after the ninth are dropped.  The zone is `Z`, `UTC` in any
case, or a sign with hours and minutes, between which colons and blanks may
stand; the minus sign may be U+2212.

The instant is the one meant in UTC.  It has to be one that can be represented,
and so has the local date.
-/
import Presence.Time.Timestamp
import Presence.Text.Blank

namespace Presence.Timestamp

open Text

/-- A reader takes characters from the front of a text, or refuses it. -/
abbrev Reader (α : Type) := StateT (List Char) Option α

/-- Passes over blanks. -/
def blanks : Reader Unit := modify skipBlanks

/-- Takes exactly the character `c`. -/
def expect (c : Char) : Reader Unit := do
  match ← get with
  | d :: rest => if d = c then set rest else failure
  | [] => failure

/-- Takes at least one digit and at most `most`. -/
def digits (most : Nat) : Reader (List Char) := do
  let s ← get
  let ds := (s.take most).takeWhile Char.isDigit
  if ds.isEmpty then failure
  set (s.drop ds.length)
  return ds

/-- A number of one or two digits, with blanks in front. -/
def part : Reader Nat := do
  blanks
  return digitsValue (← digits 2)

/-- A year: a sign and any number of digits, or one to four digits. -/
def yearPart : Reader Int := do
  blanks
  match ← get with
  | '-' :: rest => set rest; return -(digitsValue (← digits rest.length) : Int)
  | '+' :: rest => set rest; return digitsValue (← digits rest.length)
  | _ => return digitsValue (← digits 4)

/-- A date that occurs in the calendar. -/
def datePart : Reader Date := do
  let year ← yearPart
  blanks
  expect '-'
  let month ← part
  blanks
  expect '-'
  let date : Date := ⟨year, month, ← part⟩
  if date.Valid then return date else failure

/-- The letter or space between date and time. -/
def separator : Reader Unit := do
  match ← get with
  | c :: rest => if c = 'T' ∨ c = 't' ∨ c = ' ' then set rest else failure
  | [] => failure

/-- Nanoseconds from the digits of a fraction, of which those after the ninth are dropped. -/
def fractionNanos (ds : List Char) : Nat :=
  digitsValue (ds.take 9) * Nat.pow 10 (9 - (ds.take 9).length)

/-- A fraction of a second, if there is one, in nanoseconds. -/
def fractionPart : Reader Nat := do
  match ← get with
  | '.' :: rest => set rest; return fractionNanos (← digits rest.length)
  | _ => return 0

/-- A time of day, as the second of the day and the nanoseconds into it; a second of 60 is the
leap second after 59. -/
def timePart : Reader (Nat × Nat) := do
  let hour ← part
  blanks
  expect ':'
  let minute ← part
  blanks
  expect ':'
  let second ← part
  if 23 < hour ∨ 59 < minute ∨ 60 < second then failure
  let nano ← fractionPart
  let seconds := 3600 * hour + 60 * minute
  if second = 60 then return (seconds + 59, nanosPerSecond + nano)
  return (seconds + second, nano)

/-- Two digits. -/
def twoDigits : Reader Nat := do
  match ← get with
  | a :: b :: rest =>
    if a.isDigit ∧ b.isDigit then
      set rest
      return digitsValue [a, b]
    else failure
  | _ => failure

/-- Hours and minutes of a zone behind its sign, in seconds; less than a day. -/
def zoneSeconds : Reader Int := do
  let hours ← twoDigits
  modify (·.dropWhile fun c => c == ':' || isBlank c)
  let minutes ← twoDigits
  if 59 < minutes ∨ 23 < hours then failure
  return 3600 * hours + 60 * minutes

/-- How far the zone is ahead of UTC, in seconds. -/
def zonePart : Reader Int := do
  blanks
  match ← get with
  | 'Z' :: rest => set rest; return 0
  | 'z' :: rest => set rest; return 0
  | '+' :: rest => set rest; zoneSeconds
  | '-' :: rest => set rest; return -(← zoneSeconds)
  | '\u2212' :: rest => set rest; return -(← zoneSeconds)
  | a :: b :: c :: rest =>
    if a.toLower = 'u' ∧ b.toLower = 't' ∧ c.toLower = 'c' then
      set rest
      return 0
    else failure
  | _ => failure

/-- The seconds of instants that can be represented. -/
def inRange (sec : Int) : Prop := Instant.earliest.sec ≤ sec ∧ sec ≤ Instant.latest.sec

instance (sec : Int) : Decidable (inRange sec) := inferInstanceAs (Decidable (_ ∧ _))

/-- A whole timestamp. -/
def instantPart : Reader Instant := do
  let date ← datePart
  separator
  let (second, nano) ← timePart
  let zone ← zonePart
  blanks
  let here := date.toDays * secondsPerDay + second
  if inRange here ∧ inRange (here - zone) then return ⟨here - zone, nano⟩ else failure

end Presence.Timestamp

/-- The instant that a timestamp names. -/
def Presence.Instant.ofTimestamp? (s : List Char) : Option Presence.Instant :=
  match Presence.Timestamp.instantPart s with
  | some (t, []) => some t
  | _ => none
