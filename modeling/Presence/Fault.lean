/-
Presence/Fault.lean

Faults, the reasons for which an activity breaks off half-way.

A fault is not an answer: the activity that meets one has no result, and what it
had already changed stays changed.
-/

namespace Presence

/-- Why an activity breaks off. -/
inductive Fault where
  /-- The clock shows a time that cannot be read. -/
  | clockUnreadable
  /-- Ticks are asked for without any time between them. -/
  | noInterval
  /-- A tick is due beyond the end of time. -/
  | tickOutOfReach
  deriving DecidableEq, Repr

end Presence
