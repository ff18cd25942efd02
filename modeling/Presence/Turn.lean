/-
Presence/Turn.lean

The console's turns on a terminal.

A program on a terminal cannot look at its input as a whole.  It reads a line, and
has the console take it before it reads on.  `Watch.turn` is what the program does
about one reading: the sweeps that have fallen due meanwhile are carried out, each
at the time for which it was due, and then the console does a step on what has been
read.  It takes turns (`Watch.turns`) until the console has a reason to stop.
-/
import Presence.Console
import Presence.Sweeper

namespace Presence

/-- What a program on a terminal reads: a line, or a failure, or nothing at the end of the input. -/
abbrev Reading := Option (Except InputError String)

/-- What a turn comes to. -/
structure Turn where
  /-- Why the console stops, if there is a reason. -/
  stop? : Option ConsoleEnd
  /-- What has been logged since the turn before, in order. -/
  log : List Notice
  /-- What is to be written. -/
  output : List UInt8
  deriving DecidableEq

namespace Watch

/-- The console of a run, with what has been read in front of it. -/
def console (w : Watch) (read : Reading) : Console :=
  { node := w.session.node, feed := Console.feedOfLines w.cancelled read.toList, log := w.log }

/-- The run after the console's step; what has been logged has gone with the turn. -/
def after (w : Watch) (c : Console) : Watch :=
  { w with session := { w.session with node := c.node }, log := .empty }

/-- The turn on what has been read at a time, and the run after it. -/
def turn (w : Watch) (now : Nat) (read : Reading) : Turn × Watch :=
  let w := w.waitUntil now
  let (stop?, c) := (w.console read).step
  (⟨stop?, c.log.toList, c.sink.written.toList⟩, w.after c)

/-- Takes turns on what is read at given times, until there is a reason to stop. -/
def turns (w : Watch) : List (Nat × Reading) → List Turn × Watch
  | [] => ([], w)
  | (t, read) :: rest =>
    let (turn, next) := w.turn t read
    match turn.stop? with
    | some _ => ([turn], next)
    | none =>
      let (turns, last) := next.turns rest
      (turn :: turns, last)

end Watch

end Presence
