/-
Presence/Node.lean

A registry under its lock, together with the clock by which it is kept.

The operations that stamp or compare times read the clock exactly once:
`upsert`, `touch` of a tracked peer, and `dropOlderThan`.  Where the clock cannot
be read they break off with a `Fault`; the reading has then moved the clock, and
the registry is as it was.  All other operations leave the clock alone and
cannot fail.

An operation takes the lock before it looks at the registry and keeps it until it
is done, so operations on one registry come one after the other.  Whoever breaks
off while holding the lock leaves it poisoned for good.  `upsert` and `touch` read
the clock while they hold it; `dropOlderThan` reads the clock before it takes it.
Taking a poisoned lock gives a warning, which everybody passes over (`peers`):
no operation changes the registry before it has all that it needs, so there is
nothing half-done behind it.

An operation gives an `Outcome`: its result or fault, the node afterwards, and
the notices it has logged.
-/
import Presence.Fault
import Presence.Registry
import Presence.Time.Clock
import Presence.Notice

namespace Presence

/-- A registry under its lock and the clock by which it is kept. -/
structure Node where
  /-- The tracked peers. -/
  registry : Registry
  /-- The wall clock. -/
  clock : Clock
  /-- Somebody has broken off while holding the lock. -/
  poisoned : Bool := false
  deriving DecidableEq

/-- Whether the lock is held. -/
inductive Lock where
  | held
  | free
  deriving DecidableEq, Repr

/-- What comes of an operation. -/
structure Outcome (α : Type) where
  /-- The result, or why there is none. -/
  result : Except Fault α
  /-- The node afterwards. -/
  node : Node
  /-- What has been logged, in order. -/
  log : List Notice := []

/-- The outcome with its result changed. -/
def Outcome.map {α β : Type} (f : α → β) (o : Outcome α) : Outcome β :=
  ⟨o.result.map f, o.node, o.log⟩

/-- The outcome with notices logged after it, unless it broke off. -/
def Outcome.logging {α : Type} (notices : α → List Notice) (o : Outcome α) : Outcome α :=
  match o.result with
  | .ok a => { o with log := o.log ++ notices a }
  | .error _ => o

namespace Node

/-- A node that tracks nobody. -/
def fresh (clock : Clock) : Node := { registry := Registry.empty, clock }

/-- Takes the lock: gives the registry, with a warning if the lock is poisoned. -/
def lock (n : Node) : Except Registry Registry :=
  if n.poisoned then .error n.registry else .ok n.registry

/-- The tracked peers, for whoever takes the lock and passes over a warning. -/
def peers (n : Node) : Registry :=
  match n.lock with
  | .ok r => r
  | .error r => r

/-- Nothing is lost by passing over a warning. -/
@[simp] theorem peers_eq (n : Node) : n.peers = n.registry := by
  rcases h : n.poisoned with - | - <;> simp [peers, lock, h]

/-- The node after a reading of its clock. -/
def tick (n : Node) : Node := { n with clock := n.clock.tick }

/-- The node that is left by whoever breaks off with the lock held or free. -/
def brokenOff (n : Node) (lock : Lock) : Node := { n with poisoned := n.poisoned || lock = .held }

/-- Reads the clock once, with the lock held or free, and goes on with the time it shows. -/
def reading {α : Type} (n : Node) (lock : Lock) (use : Instant → α × Registry) : Outcome α :=
  match n.clock.now? with
  | some now => ⟨.ok (use now).1, { n.tick with registry := (use now).2 }, []⟩
  | none => ⟨.error .clockUnreadable, n.tick.brokenOff lock, []⟩

/-- Tracks a peer with a content, seen now; a content it had is replaced. -/
def upsert (id content : String) (n : Node) : Outcome Unit :=
  n.reading .held fun now => ((), n.peers.insert id ⟨content, now⟩)

/-- A tracked peer is seen now; tells whether the peer is tracked. -/
def touch (id : String) (n : Node) : Outcome Bool :=
  match n.peers.get? id with
  | some s => n.reading .held fun now => (true, n.peers.insert id { s with lastSeen := now })
  | none => ⟨.ok false, n, []⟩

/-- Forgets a peer; gives what was known of it. -/
def remove (id : String) (n : Node) : Outcome (Option Sighting) :=
  ⟨.ok (n.peers.get? id), { n with registry := n.peers.erase id }, []⟩

/-- Forgets the peers last seen before a cutoff; gives their ids. -/
def dropBefore (cutoff : Instant) (n : Node) : Outcome (List String) :=
  ⟨.ok (n.peers.stale cutoff), { n with registry := n.peers.prune cutoff }, []⟩

/-- Forgets the peers that are now older than an age; gives their ids. -/
def dropOlderThan (maxAge : Age) (n : Node) : Outcome (List String) :=
  n.reading .free fun now =>
    let cutoff := cutoffBefore now maxAge
    (n.peers.stale cutoff, n.peers.prune cutoff)

/-- One sweep: forgets the peers that are older than an age and logs who they were. -/
def sweep (maxAge : Age) (n : Node) : Outcome (List String) :=
  let o := n.dropOlderThan maxAge
  o.logging fun
    | [] => [.nothingStale o.node.peers.size]
    | ids => [.sweptAway ids o.node.peers.size]

end Node

end Presence
