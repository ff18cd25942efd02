/-
Presence/Program.lean

The program as a whole.

It reads its command line.  If that asks for help or version, the program shows
it; if it is mistaken, the program says why on the error output and ends with
status 2; if the options make no sense, it logs that and ends with status 1.
Otherwise the console works through the standard input while the sweeper sweeps,
each of them a task of its own.  The program ends with status 0 once both tasks
have ended, whatever ended them.  It logs the failure of either, of the sweeper
first, and how many peers it still tracks.

The console ends with its input, or with an error that it logs itself, or because
the clock cannot be read.  The sweeper ends only on an interrupt or a fault: it
cannot be started with an interval so long that the first sweep is out of reach.
`Program.run` tells the course of a program that is interrupted, if it is, after
its input has been worked through and before the first sweep is due.
-/
import Presence.Console
import Presence.Options
import Presence.Sweeper

namespace Presence

/-- What options ask of the sweeper. -/
def Options.plan (o : Options) : SweepPlan := ⟨o.oldest, o.interval⟩

/-- What is left when the program has ended. -/
structure Program where
  /-- The exit status. -/
  status : Nat
  /-- What has been written to the standard output. -/
  output : List UInt8 := []
  /-- What has been said on the error output, apart from the log. -/
  complaint : Option String := none
  /-- What has been logged of refused options, of failures of the tasks, and of the end. -/
  log : List Notice := []
  deriving DecidableEq

namespace Program

/-- The end of a program whose arguments give no options. -/
def refused (e : UsageError) : Program :=
  if e.isRequest then { status := 0, output := e.written.toUTF8.toList }
  else { status := 2, complaint := some e.written }

/-! ### The tasks -/

/-- The console's work on an input, from a node that tracks nobody; none if it is switched off. -/
def console (o : Options) (input : List UInt8) (clock : Clock) : Option (ConsoleEnd × Console) :=
  if o.noConsole then none
  else
    some (Console.run
      { node := Node.fresh clock, feed := Console.feedOfLines false (Text.lines input) })

/-- What the console's task logs last. -/
def consoleReport (why : ConsoleEnd) : List Notice :=
  (why.error?.map Notice.consoleFailed).toList

/-- How the console's task ends: an error is reported and ends it well, a fault does not. -/
def consoleTask : ConsoleEnd → TaskEnd
  | .broken _ => .panicked none
  | .inputEnded | .stopped | .inputFailed _ | .outputClosed => .completed

/-- The run at its beginning, when the user has done nothing; without a sweeper its task has done
its work. -/
def watch (uptime : Nat) (o : Options) (clock : Clock) : Watch :=
  { plan := o.plan, uptime, cancelled := false, session := Session.start clock
    sweeper := if o.noSweeper then .ended .completed else .idle }

/-- How the sweeper's task ends; none if it waits for a tick and is not interrupted. -/
def sweeperTask? (uptime : Nat) (o : Options) (clock : Clock) (interrupted : Bool) :
    Option TaskEnd :=
  match (watch uptime o clock).begun.sweeper with
  | .ended e => some e
  | .idle | .waiting _ => if interrupted then some .completed else none

/-! ### The end -/

/-- What is logged when both tasks have ended. -/
def farewell (sweeper console : TaskEnd) (tracked : Nat) : List Notice :=
  sweeper.report "sweeper" ++ console.report "console" ++ [.exiting tracked]

/-- The end of a program that has worked with these options, and whose sweeper has ended so. -/
def worked (sweeper : TaskEnd) (o : Options) (input : List UInt8) (clock : Clock) : Program :=
  match console o input clock with
  | none => { status := 0, log := farewell sweeper .completed 0 }
  | some (why, c) =>
    { status := 0, output := c.sink.written.toList,
      log := consoleReport why ++ farewell sweeper (consoleTask why) c.node.registry.size }

/-- The course of the program; none if it does not end. -/
def run (uptime : Nat) (args : List String) (input : List UInt8) (clock : Clock)
    (interrupted : Bool) : Option Program :=
  match Options.parse args with
  | .error e => some (refused e)
  | .ok o =>
    match o.refusal? with
    | some why => some { status := 1, log := [.optionsRejected why] }
    | none => (sweeperTask? uptime o clock interrupted).map fun e => worked e o input clock

end Program

end Presence
