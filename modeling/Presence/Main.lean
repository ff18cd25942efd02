/-
Presence/Main.lean

The program on a real terminal.

Only reading, writing and looking at the time happen here.  What to do about a
reading is decided by `Watch.turn`, what the sweeper does by `Watch`, what the
arguments mean by `Options`, and how the program ends by `Program`.  Replies go to
the standard output and the log to the error output.
-/
import Std.Time.DateTime.Timestamp
import Presence.Program
import Presence.Turn

namespace Presence.Main

/-- Writes the notices that matter to a user to the error output. -/
def report (log : List Notice) : IO Unit :=
  (log.filter fun n => n.level ≠ .debug).forM fun n => IO.eprintln n.line

/-- Writes bytes to the standard output; tells whether they have been taken. -/
def deliver (bytes : List UInt8) : IO Bool := do
  let out ← IO.getStdout
  try
    out.write bytes.toByteArray
    out.flush
    return true
  catch _ => return false

/-- Nanoseconds since a time of the monotonic clock. -/
def elapsedSince (start : Nat) : IO Nat := do return (← IO.monoNanosNow) - start

/-- The wall clock. -/
def wallClock : IO Clock := do
  let now ← Std.Time.Timestamp.now
  return { base := now.toNanosecondsSinceUnixEpoch.val, step := 0 }

/-- Reads one line; none at the end of the input. -/
def readLine : IO Reading := do
  try
    let line ← (← IO.getStdin).getLine
    return (Text.lines line.toUTF8.toList).head?
  catch _ => return some (.error .invalidText)

/-- Takes turns on what is read until there is a reason to stop, or a reply is not taken. -/
partial def serve (start : Nat) (w : Watch) : IO (ConsoleEnd × Watch) := do
  let read ← readLine
  let (turn, w) := w.turn (← elapsedSince start) read
  report turn.log
  if ← deliver turn.output then
    match turn.stop? with
    | some why => return (why, w)
    | none => serve start w
  else return (.outputClosed, w)

/-- Lets the sweeper work until it ends. -/
partial def keepSweeping (start : Nat) (w : Watch) : IO (TaskEnd × Watch) := do
  let w := w.waitUntil (← elapsedSince start)
  report w.log.toList
  let w := { w with log := .empty }
  match w.sweeper with
  | .ended e => return (e, w)
  | .idle | .waiting _ =>
    IO.sleep 100
    keepSweeping start w

/-- Works with the given options until console and sweeper have ended.  The monotonic clock counts
from the time when the machine was started. -/
def work (o : Options) : IO Unit := do
  let start ← IO.monoNanosNow
  let w := Program.watch start o (← wallClock)
  if o.noSweeper then report [.sweeperDisabled]
  let (console, w) ← if o.noConsole then pure (.completed, w) else do
    let (why, w) ← serve start w
    report (Program.consoleReport why)
    pure (Program.consoleTask why, w)
  let (sweeper, w) ← keepSweeping start w
  report (Program.farewell sweeper console w.session.node.registry.size)

end Presence.Main

open Presence in
/-- Runs the program. -/
def main (args : List String) : IO UInt32 := do
  match Options.parse args with
  | .error e =>
    let p := Program.refused e
    discard <| Main.deliver p.output
    p.complaint.forM fun c => IO.eprintln c
    return p.status.toUInt32
  | .ok o =>
    match o.refusal? with
    | some why =>
      Main.report [.optionsRejected why]
      return 1
    | none =>
      Main.work o
      return 0
