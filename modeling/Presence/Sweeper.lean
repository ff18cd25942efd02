/-
Presence/Sweeper.lean

The sweeper: sweeps at every tick, beside a user who works on the same node.

A `Watch` is such a run.  Time moves only while somebody waits, and everything
that happens at one time happens in order.  The user's actions come at given
times; between them the sweeper is at work.  It begins when the user first
waits, and sweeps at every tick until the order to stop has been given or a
sweep breaks off.  Before each tick it looks whether the order is in force.

The node's clock shows the time that has elapsed on top of what it was set to.
-/
import Presence.Session
import Presence.Task
import Presence.Time.Ticker
import Presence.Trail

namespace Presence

/-- Where the sweeper stands. -/
inductive Sweeper where
  /-- It has not begun. -/
  | idle
  /-- It waits for the next tick. -/
  | waiting (t : Ticker)
  /-- It has ended. -/
  | ended (e : TaskEnd)

/-- What the sweeper is asked to do. -/
structure SweepPlan where
  /-- Peers older than this are swept away. -/
  maxAge : Age
  /-- The time between sweeps. -/
  interval : Age
  deriving DecidableEq, Repr

/-- A user's session with a sweeper beside it. -/
structure Watch where
  /-- What the sweeper is asked to do. -/
  plan : SweepPlan
  /-- How long the machine had been up when the run began, in nanoseconds. -/
  uptime : Nat
  /-- The order to stop has been given. -/
  cancelled : Bool
  /-- The user's session. -/
  session : Session
  /-- Where the sweeper stands. -/
  sweeper : Sweeper := .idle
  /-- Nanoseconds since the run began. -/
  now : Nat := 0
  /-- What has been logged since the user's last action. -/
  log : Trail Notice := .empty

namespace Watch

/-- The run at a later time. -/
def atTime (w : Watch) (t : Nat) : Watch :=
  { w with
    now := t
    session := { w.session with
      node := { w.session.node with clock := w.session.node.clock.atElapsed t } } }

/-- Logs notices. -/
def logging (w : Watch) (notices : List Notice) : Watch :=
  { w with log := w.log.append notices }

/-- The sweeper leaves its loop because of the order to stop. -/
def stopSweeper (w : Watch) : Watch :=
  { w.logging [.sweeperStopped, .sweeperExited] with sweeper := .ended .completed }

/-- The sweeper begins: it looks at the order to stop and then waits for its first tick. -/
def beginSweeper (w : Watch) : Watch :=
  let w := w.logging [.sweeperStarted w.plan.maxAge w.plan.interval]
  if w.cancelled then w.stopSweeper
  else
    match Ticker.start w.uptime w.plan.interval w.now with
    | .ok t => { w with sweeper := .waiting t }
    | .error _ => { w with sweeper := .ended (.panicked none) }

/-- The tick that the sweeper waited for has come: it sweeps, and waits for the next one. -/
def sweepNow (w : Watch) (t : Ticker) : Watch :=
  let o := w.session.node.sweep w.plan.maxAge
  let w := { w.logging o.log with session := { w.session with node := o.node } }
  match o.result with
  | .ok _ => { w with sweeper := .waiting (t.next w.now) }
  | .error _ => { w with sweeper := .ended (.panicked none) }

theorem sweeper_sweepNow {w : Watch} {t u : Ticker} (h : (w.sweepNow t).sweeper = .waiting u) :
    u = t.next w.now := by
  unfold sweepNow at h
  simp only [logging] at h
  split at h
  · simpa using h.symm
  · simp at h

/-- Lets a sweeper that waits do its work up to a time. -/
def sweepUntil (limit : Nat) (w : Watch) : Watch :=
  match _h : w.sweeper with
  | .waiting t =>
    if t.arrival w.now ≤ limit then sweepUntil limit ((w.atTime (t.arrival w.now)).sweepNow t)
    else w
  | _ => w
termination_by
  match w.sweeper with
  | .waiting t => limit + 1 - t.due
  | _ => 0
decreasing_by
  have hdue := t.due_le_arrival w.now
  simp only [_h]
  split
  · next u hu =>
    rw [sweeper_sweepNow hu]
    have := t.due_lt_due_next (t.arrival w.now)
    simp only [atTime]
    omega
  · omega

/-- The run with a sweeper that has begun. -/
def begun (w : Watch) : Watch :=
  match w.sweeper with
  | .idle => w.beginSweeper
  | _ => w

/-- The user waits until a time, if it is yet to come; meanwhile the sweeper is at work. -/
def waitUntil (t : Nat) (w : Watch) : Watch :=
  if w.now < t then (w.begun.sweepUntil t).atTime t else w

/-- The user carries out an action; all that has been logged since the last one goes with it. -/
def perform (w : Watch) (a : Action) : Step × Watch :=
  let (step, session) := w.session.perform a
  ({ step with log := w.log.toList ++ step.log }, { w with session, log := .empty })

/-- The user carries out actions at given times. -/
def run (w : Watch) : (timeline : List (Nat × Action)) → List Step × Watch
  | [] => ([], w)
  | (t, a) :: rest =>
    let (step, next) := (w.waitUntil t).perform a
    let (steps, last) := next.run rest
    (step :: steps, last)

/-- Gives the order to stop at a time and waits until the sweeper has ended. -/
def finish (t : Nat) (w : Watch) : TaskEnd × Watch :=
  let w := { w.waitUntil t with cancelled := true }
  match w.sweeper with
  | .idle => (.completed, w.beginSweeper)
  | .waiting _ => (.completed, w.stopSweeper)
  | .ended e => (e, w.logging (e.report "sweeper"))

end Watch

/-- A user's actions at given times, with a sweeper beside them.  The actions `before` come
before the sweeper exists, those of the timeline afterwards, and at the end the sweeper is
stopped.  Gives the steps of all actions, how the sweeper ended and the run at its end. -/
def watch (uptime : Nat) (plan : SweepPlan) (cancelled : Bool) (clock : Clock)
    (before : List Action) (timeline : List (Nat × Action)) (stopAt : Nat) :
    List Step × TaskEnd × Watch :=
  let (first, session) := (Session.start clock).run before
  let (rest, w) := ({ plan, uptime, cancelled, session } : Watch).run timeline
  let (e, w) := w.finish stopAt
  (first ++ rest, e, w)

end Presence
