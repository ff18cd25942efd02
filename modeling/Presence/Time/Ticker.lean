/-
Presence/Time/Ticker.lean

Ticks at an interval, on a clock that only moves while somebody waits.

Times are nanoseconds since the run began.  How long the machine had been up by
then (its `uptime`, in nanoseconds too) decides how far ahead a tick can be due.
A ticker that is started at a time has its first tick due one interval later.
Between two ticks lies the interval too, but never more than `longestGap`.  A tick
is received when somebody waits for it and it is due; the clock of a waiting
program moves in whole milliseconds, so a tick due between two is received at the
later one.

A tick that is received in time, or late by no more than `tolerance`, is followed
by one due a gap after it was *due*.  After one received later than that the next
is due a gap after it was *received*: missed ticks are not made up for.
-/
import Presence.Fault
import Presence.Time.Instant

namespace Presence

/-- Nanoseconds in a millisecond. -/
def nanosPerMilli : Nat := 1000000

/-- The last time at which a tick can be due: its second, counted from the start of the machine, is
below `2^63`. -/
def lastMoment (uptime : Nat) : Nat := Nat.pow 2 63 * nanosPerSecond - 1 - uptime

/-- A source of ticks. -/
structure Ticker where
  /-- The time between ticks. -/
  gap : Nat
  /-- The time between ticks is not zero. -/
  gap_pos : 0 < gap
  /-- When the next tick is due. -/
  due : Nat

namespace Ticker

/-- How late a tick may be received without shifting the ones behind it. -/
def tolerance : Nat := 5 * nanosPerMilli

/-- The longest time between two ticks, thirty years of 365 days. -/
def longestGap : Nat := 30 * 365 * 86400 * nanosPerSecond

theorem gap_of_interval_pos (interval : Age) (h : 0 < interval.toNanos) :
    0 < min interval.toNanos longestGap :=
  Nat.lt_min.2 ⟨h, by decide⟩

/-- A ticker started at the time `now` of a run on a machine that had been up for so long. -/
def start (uptime : Nat) (interval : Age) (now : Nat) : Except Fault Ticker :=
  if h : 0 < interval.toNanos then
    if lastMoment uptime < now + interval.toNanos then .error .tickOutOfReach
    else
      .ok
        { gap := min interval.toNanos longestGap
          gap_pos := gap_of_interval_pos interval h
          due := now + interval.toNanos }
  else .error .noInterval

/-- When the next tick is received by somebody who waits from the time `now` on. -/
def arrival (t : Ticker) (now : Nat) : Nat :=
  max now ((t.due + nanosPerMilli - 1) / nanosPerMilli * nanosPerMilli)

/-- The ticker after its tick has been received. -/
def next (t : Ticker) (received : Nat) : Ticker :=
  { t with
    due := if t.due + tolerance < received then received + t.gap else t.due + t.gap }

theorem due_lt_due_next (t : Ticker) (received : Nat) : t.due < (t.next received).due := by
  have := t.gap_pos
  unfold next
  dsimp only
  split <;> omega

theorem due_le_arrival (t : Ticker) (now : Nat) : t.due ≤ t.arrival now := by
  simp only [arrival, nanosPerMilli]
  omega

/-- For each busy time, when the tick awaited after it was due and when it was received, from the
time `now` on. -/
def ticksFrom (t : Ticker) (now : Nat) : (busy : List Nat) → List (Nat × Nat)
  | [] => []
  | b :: rest =>
    let received := t.arrival (now + b)
    (t.due, received) :: (t.next received).ticksFrom received rest

end Ticker

/-- Waits for a tick after each busy time and gives when it was due and when it was received.  The
ticker is started when it is first waited for. -/
def ticks (uptime : Nat) (interval : Age) : (busy : List Nat) → Except Fault (List (Nat × Nat))
  | [] => .ok []
  | b :: rest => do
    let t ← Ticker.start uptime interval b
    return t.ticksFrom b (0 :: rest)

end Presence
