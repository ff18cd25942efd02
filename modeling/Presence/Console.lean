/-
Presence/Console.lean

The console: lines in, replies out.

A console works on a node.  It waits for a line or for the order to stop, has
the node respond to the line, and writes the reply as a line of its own before
it waits again.  `step` does this once; `run` goes on until the input ends or
fails, the order to stop comes, the reply cannot be written, or the node's clock
cannot be read.  Clock changes that come with the input take effect before the
line behind them.
-/
import Presence.Console.Reply
import Presence.Console.Sink
import Presence.Feed
import Presence.Text.Lines

namespace Presence

/-- Why a console has stopped. -/
inductive ConsoleEnd where
  /-- The input has ended. -/
  | inputEnded
  /-- The order to stop has come. -/
  | stopped
  /-- The input has failed. -/
  | inputFailed (e : InputError)
  /-- The sink has not taken a reply. -/
  | outputClosed
  /-- An operation has broken off. -/
  | broken (f : Fault)
  deriving DecidableEq, Repr

/-- What is said of a console that gives up, which it does if it cannot read or write. -/
def ConsoleEnd.error? : ConsoleEnd → Option String
  | inputFailed e => some e.message
  | outputClosed => some "writer closed"
  | inputEnded | stopped | broken _ => none

/-- What the console's source delivers: lines or a failure, and settings of the clock. -/
abbrev LineFeed := Feed Int (Except InputError String)

/-- A console at work. -/
structure Console where
  /-- The node worked on. -/
  node : Node
  /-- Where lines come from. -/
  feed : LineFeed
  /-- Where replies go. -/
  sink : Sink := {}
  /-- What has been logged. -/
  log : Trail Notice := .empty

namespace Console

/-- The feed of lines already read. -/
def feedOfLines (cancelled : Bool) (lines : List (Except InputError String)) : LineFeed :=
  ⟨lines.map .item, cancelled⟩

/-- Sets the node's clock to each of the times in turn. -/
def setClock (times : List Int) (n : Node) : Node :=
  { n with clock := times.foldl Clock.set n.clock }

/-- Writes what the user is told about a line; tells why to stop, if there is a reason. -/
def deliver (c : Console) : Except Fault (Option Reply) → Option ConsoleEnd × Console
  | .error f => (some (.broken f), c)
  | .ok none => (none, c)
  | .ok (some reply) =>
    match c.sink.sendLine reply.text with
    | (true, sink) => (none, { c with sink })
    | (false, sink) => (some .outputClosed, { c with sink })

/-- Logs notices. -/
def logging (c : Console) (notices : List Notice) : Console :=
  { c with log := c.log.append notices }

/-- Has the node respond to a line. -/
def handle (c : Console) (line : String) : Option ConsoleEnd × Console :=
  let o := c.node.respond line
  deliver { c.logging o.log with node := o.node } o.result

/-- Does what a wait calls for. -/
def react (c : Console) : Wake (Except InputError String) → Option ConsoleEnd × Console
  | .item (.ok line) => c.handle line
  | .item (.error e) =>
    (some (.inputFailed e), c.logging [.inputFailed e.message])
  | .ended => (some .inputEnded, c.logging [.inputClosed])
  | .stopped => (some .stopped, c.logging [.consoleStopped])

/-- The console after a wait, before it does anything. -/
def awoken (c : Console) (w : Woken Int (Except InputError String)) : Console :=
  { c with node := setClock w.asides c.node, feed := w.feed }

/-- Waits once and does what the wait calls for. -/
def step (c : Console) : Option ConsoleEnd × Console :=
  let w := c.feed.next
  (c.awoken w).react w.wake

theorem feed_deliver (c : Console) (r : Except Fault (Option Reply)) :
    (c.deliver r).2.feed = c.feed := by
  unfold deliver
  split
  · rfl
  · rfl
  · split <;> rfl

theorem feed_handle (c : Console) (line : String) : (c.handle line).2.feed = c.feed :=
  feed_deliver _ _

theorem length_step_lt {c : Console} (h : c.step.1 = none) :
    c.step.2.feed.events.length < c.feed.events.length := by
  dsimp only [step, react] at h ⊢
  split at h
  · next hw => simp only [feed_handle]; exact Feed.length_next_lt hw
  all_goals simp at h

/-- Works until there is a reason to stop. -/
def run (c : Console) : ConsoleEnd × Console :=
  match _h : c.step with
  | (some why, next) => (why, next)
  | (none, next) => next.run
termination_by c.feed.events.length
decreasing_by
  have := length_step_lt (congrArg Prod.fst _h)
  rwa [_h] at this

end Console

end Presence
