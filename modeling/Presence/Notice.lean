/-
Presence/Notice.lean

What the program reports about itself.

A `Notice` is one entry of the log, kept as data.  It has a level and a text; a
line of the log is the level, a space and the text.  Values that a notice
carries stand behind its message as `name=value`.
-/
import Presence.Time.Instant
import Presence.Text.Listing
import Presence.Text.Literal

namespace Presence

/-- How much a notice matters. -/
inductive Level where
  | debug
  | info
  | error
  deriving DecidableEq, Repr

/-- The name of a level in the log. -/
def Level.name : Level → String
  | .debug => "DEBUG"
  | .info => "INFO"
  | .error => "ERROR"

/-- An entry of the log. -/
inductive Notice where
  /-- The console is about to track a peer. -/
  | upserting (id : String)
  /-- The console has pruned so many peers. -/
  | consolePruned (count : Nat)
  /-- A sweep has dropped these peers and left so many. -/
  | sweptAway (ids : List String) (remaining : Nat)
  /-- A sweep has dropped nobody. -/
  | nothingStale (remaining : Nat)
  /-- The console's input has ended. -/
  | inputClosed
  /-- The console has been told to stop. -/
  | consoleStopped
  /-- The console's input has failed. -/
  | inputFailed (reason : String)
  /-- The sweeper starts. -/
  | sweeperStarted (maxAge interval : Age)
  /-- The sweeper has been told to stop. -/
  | sweeperStopped
  /-- The sweeper's ticks have ended. -/
  | ticksEnded
  /-- The sweeper has left its loop. -/
  | sweeperExited
  /-- The sweeper is switched off. -/
  | sweeperDisabled
  /-- The user has asked the program to stop. -/
  | shutdownRequested
  /-- A task has failed, with its name and its last words where they are known. -/
  | taskPanicked (known : Option (String × String))
  /-- A task has been taken down from outside. -/
  | taskCancelled (name : String)
  /-- The options make no sense. -/
  | optionsRejected (reason : String)
  /-- The console has given up. -/
  | consoleFailed (reason : String)
  /-- The program ends with so many peers tracked. -/
  | exiting (tracked : Nat)
  deriving DecidableEq, Repr

namespace Notice

/-- How much the notice matters. -/
def level : Notice → Level
  | upserting _ | nothingStale _ => .debug
  | inputFailed _ | taskPanicked _ | taskCancelled _ | optionsRejected _ | consoleFailed _ =>
    .error
  | _ => .info

/-- The message and the values behind it. -/
def text : Notice → String
  | upserting id => "upsert peer=" ++ id
  | consolePruned count => s!"console prune dropped_count={count}"
  | sweptAway ids remaining =>
    "dropped stale peers: " ++ Text.listing ids ++
      s!" dropped_count={ids.length} remaining={remaining}"
  | nothingStale remaining => s!"sweep found no stale peers remaining={remaining}"
  | inputClosed => "Console input closed"
  | consoleStopped => "Console: shutdown signal received"
  | inputFailed reason => "Console input error: " ++ reason
  | sweeperStarted maxAge interval =>
    s!"Sweeper started max_age_secs={maxAge.sec} interval_secs={interval.sec}"
  | sweeperStopped => "Sweeper: shutdown signal received"
  | ticksEnded => "Sweeper tick stream ended"
  | sweeperExited => "Sweeper exited"
  | sweeperDisabled => "Sweeper disabled"
  | shutdownRequested => "Shutdown signal received"
  | taskPanicked none => "task panicked"
  | taskPanicked (some (name, message)) =>
    "task panicked: task N panicked with message " ++ Text.literal message ++
      " task=" ++ Text.literal name
  | taskCancelled name => "task failed: task N was cancelled task=" ++ Text.literal name
  | optionsRejected reason => "Error: " ++ reason
  | consoleFailed reason => "Console error: " ++ reason
  | exiting tracked => s!"Exiting tracked_peers={tracked}"

/-- The notice as a line of the log. -/
def line (n : Notice) : String := n.level.name ++ " " ++ n.text

end Notice

end Presence
