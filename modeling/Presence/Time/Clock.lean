/-
Presence/Time/Clock.lean

The wall clock.

A clock shows `base` plus the time that has `elapsed` since the run began, in
nanoseconds since 1970.  Whoever sets or moves the clock changes `base`; waiting
lets time elapse; and every reading moves the clock on by `step`.

A clock can be set to any time, but it can be read only while it shows a time
from 1970 on that an `Instant` can represent.  A reading that fails moves the
clock all the same.
-/
import Presence.Time.Instant

namespace Presence

/-- A wall clock that can be set, moved and read. -/
structure Clock where
  /-- What the clock would show if no time had elapsed, in nanoseconds since 1970. -/
  base : Int
  /-- By how much a reading moves the clock on. -/
  step : Int
  /-- Nanoseconds that have passed since the run began. -/
  elapsed : Nat := 0
  deriving DecidableEq, Repr

namespace Clock

/-- The time shown, in nanoseconds since 1970. -/
def nanos (c : Clock) : Int := c.base + c.elapsed

/-- The clock shows a time that can be read. -/
def Readable (c : Clock) : Prop := 0 ≤ c.nanos ∧ c.nanos ≤ Instant.latest.toNanos

instance (c : Clock) : Decidable c.Readable := inferInstanceAs (Decidable (_ ∧ _))

/-- What a reading gives. -/
def now? (c : Clock) : Option Instant :=
  if c.Readable then some (Instant.ofNanos c.nanos) else none

/-- The clock after a reading. -/
def tick (c : Clock) : Clock := { c with base := c.base + c.step }

/-- The clock set to a time, to which the time elapsed so far is still added. -/
def set (c : Clock) (t : Int) : Clock := { c with base := t }

/-- The clock moved by a number of nanoseconds, forwards or backwards. -/
def advance (c : Clock) (n : Int) : Clock := { c with base := c.base + n }

/-- The clock when so many nanoseconds have passed since the run began. -/
def atElapsed (c : Clock) (n : Nat) : Clock := { c with elapsed := n }

theorem now?_eq_none_iff {c : Clock} : c.now? = none ↔ ¬ c.Readable := by
  simp only [now?]
  split <;> simp_all

end Clock

end Presence
