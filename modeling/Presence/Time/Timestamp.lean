/-
Presence/Time/Timestamp.lean

Instants as RFC 3339 text in UTC, `2024-02-29T12:34:56.789Z`.

The form is canonical.  A year from 0 to 9999 has four digits; any other has a
sign and at least four.  The fraction is left out when it is zero and otherwise
has three, six or nine digits, the fewest that are exact.  The second of a leap
second is 60.  The zone is always `Z`.
-/
import Presence.Time.Instant
import Presence.Time.Calendar
import Presence.Text.Number

namespace Presence

open Text

/-- Seconds in a day. -/
def secondsPerDay : Nat := 86400

namespace Timestamp

/-- A year: four digits from 0 to 9999, otherwise a sign and at least four digits. -/
def year (y : Int) : List Char :=
  if 0 ≤ y ∧ y ≤ 9999 then padded 4 y.toNat
  else
    (if y < 0 then '-' else '+') ::
      (if y.natAbs ≤ 9999 then padded 4 y.natAbs else decimal y.natAbs)

/-- A fraction of a second, given in nanoseconds: the fewest of 0, 3, 6 or 9 digits that are
exact. -/
def fraction (nano : Nat) : List Char :=
  if nano = 0 then []
  else if nano % 1000000 = 0 then '.' :: padded 3 (nano / 1000000)
  else if nano % 1000 = 0 then '.' :: padded 6 (nano / 1000)
  else '.' :: padded 9 nano

/-- A date, `2024-02-29`. -/
def date (d : Date) : List Char :=
  year d.year ++ '-' :: padded 2 d.month ++ '-' :: padded 2 d.day

/-- A time of day, given as the second of the day and the nanoseconds into it.  From one second
of nanoseconds on, the time lies in the leap second that follows. -/
def time (second nano : Nat) : List Char :=
  padded 2 (second / 3600) ++ ':' :: padded 2 (second / 60 % 60) ++
    ':' :: padded 2 (second % 60 + nano / nanosPerSecond) ++ fraction (nano % nanosPerSecond)

end Timestamp

/-- The instant as RFC 3339 text in UTC. -/
def Instant.timestamp (t : Instant) : List Char :=
  Timestamp.date (Date.ofDays (t.sec / secondsPerDay)) ++
    'T' :: Timestamp.time (t.sec % secondsPerDay).toNat t.nano ++ ['Z']

end Presence
