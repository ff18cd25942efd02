/-
Presence/Session.lean

Sessions: runs of actions by one user on a node.

An `Action` is an operation as data.  Besides the node a session has a held
registry, which the user can take down from the node at one time and look at
later.  `Session.perform` carries out one action; the `Step` that it gives holds
the answer or fault, the size of the registry afterwards and what was logged.
A fault does not end a session: the next action goes on with the node that the
failed one left.
-/
import Presence.Console.Reply

namespace Presence

/-- One action of a session. -/
inductive Action where
  /-- Set the clock, in nanoseconds since 1970. -/
  | setClock (nanos : Int)
  /-- Move the clock by so many nanoseconds. -/
  | advance (nanos : Int)
  /-- Track a peer with a content. -/
  | upsert (id content : String)
  /-- A tracked peer is seen now. -/
  | touch (id : String)
  /-- Forget a peer. -/
  | remove (id : String)
  /-- What is known of a peer? -/
  | get (id : String)
  /-- Is a peer tracked? -/
  | contains (id : String)
  /-- How many peers are tracked? -/
  | size
  /-- Is nobody tracked? -/
  | isEmpty
  /-- All tracked peers. -/
  | snapshot
  /-- Take down the registry as it is. -/
  | hold
  /-- The registry taken down last. -/
  | held
  /-- Forget the peers last seen before a cutoff. -/
  | prune (cutoff : Instant)
  /-- Sweep away the peers older than an age. -/
  | sweep (maxAge : Age)
  /-- Hand a line to the console. -/
  | line (text : String)
  /-- Hand a command to the console. -/
  | command (c : Command)
  deriving DecidableEq, Repr

/-- The answer to an action. -/
inductive Answer where
  /-- There is nothing to tell. -/
  | done
  /-- Yes or no. -/
  | flag (b : Bool)
  /-- What is or was known of a peer, if it is or was tracked. -/
  | sighting (s : Option Sighting)
  /-- A number of peers. -/
  | count (n : Nat)
  /-- Peers with their sightings. -/
  | peers (r : Registry)
  /-- Ids of forgotten peers. -/
  | ids (l : List String)
  /-- The console's reply, if it gave one. -/
  | reply (r : Option Reply)
  deriving DecidableEq

/-- A node and the registry that its user has taken down. -/
structure Session where
  /-- The node worked on. -/
  node : Node
  /-- The registry taken down last, at first an empty one. -/
  held : Registry

/-- What an action of a session comes to. -/
structure Step where
  /-- The answer, or why there is none. -/
  answer : Except Fault Answer
  /-- How many peers are tracked afterwards. -/
  size : Nat
  /-- What has been logged. -/
  log : List Notice

namespace Session

/-- A session on a node that tracks nobody. -/
def start (clock : Clock) : Session := ⟨Node.fresh clock, Registry.empty⟩

/-- What an action comes to on a node, with what is held at hand. -/
def outcome (s : Session) (a : Action) : Outcome Answer :=
  let n := s.node
  match a with
  | .setClock t => ⟨.ok .done, { n with clock := n.clock.set t }, []⟩
  | .advance d => ⟨.ok .done, { n with clock := n.clock.advance d }, []⟩
  | .upsert id content => (n.upsert id content).map fun _ => .done
  | .touch id => (n.touch id).map .flag
  | .remove id => (n.remove id).map .sighting
  | .get id => ⟨.ok (.sighting (n.peers.get? id)), n, []⟩
  | .contains id => ⟨.ok (.flag (n.peers.contains id)), n, []⟩
  | .size => ⟨.ok (.count n.peers.size), n, []⟩
  | .isEmpty => ⟨.ok (.flag n.peers.isEmpty), n, []⟩
  | .snapshot => ⟨.ok (.peers n.peers), n, []⟩
  | .hold => ⟨.ok .done, n, []⟩
  | .held => ⟨.ok (.peers s.held), n, []⟩
  | .prune cutoff => (n.dropBefore cutoff).map .ids
  | .sweep maxAge => (n.sweep maxAge).map .ids
  | .line text => (n.respond text).map .reply
  | .command c => (c.run n).map fun r => .reply (some r)

/-- Carries out one action. -/
def perform (s : Session) (a : Action) : Step × Session :=
  let o := s.outcome a
  (⟨o.result, o.node.registry.size, o.log⟩,
    ⟨o.node, if a = .hold then s.node.peers else s.held⟩)

/-- Carries out actions in order; gives a step for each and the session afterwards. -/
def run (s : Session) : List Action → List Step × Session
  | [] => ([], s)
  | a :: rest =>
    let (step, next) := s.perform a
    let (steps, last) := next.run rest
    (step :: steps, last)

end Session

end Presence
