/-
Presence/Task.lean

How tasks end, and how the program is told to stop.

A task that has done its work ends without a word; the end of any other is
logged with the task's name.  The first interrupt from the user gives the order
to stop; further ones change nothing.
-/
import Presence.Notice

namespace Presence

/-- How a task has ended. -/
inductive TaskEnd where
  /-- It has done its work. -/
  | completed
  /-- It has failed, with its last words where they are known. -/
  | panicked (message : Option String)
  /-- It has been taken down from outside. -/
  | cancelled
  deriving DecidableEq, Repr

namespace TaskEnd

/-- The task has done its work. -/
def isCompleted (e : TaskEnd) : Bool := e = completed

/-- What is logged about the end of a task. -/
def report (name : String) : TaskEnd → List Notice
  | completed => []
  | panicked message => [.taskPanicked (message.map fun m => (name, m))]
  | cancelled => [.taskCancelled name]

end TaskEnd

/-- What comes of a number of interrupts: whether the order to stop is given, and what is
logged. -/
def interrupted (signals : Nat) : Bool × List Notice :=
  if signals = 0 then (false, []) else (true, [.shutdownRequested])

end Presence
