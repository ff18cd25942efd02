/-
Presence/Console/Reply.lean

How the console carries out a line and what it replies.

`Command.run` carries out a command and gives a `Reply` as data; `Reply.text` is
the one line that the user sees.  `respond` takes a whole line: a line of blanks
gets no reply, and a line that is no command is answered with its error and
changes nothing.
-/
import Presence.Command
import Presence.Node
import Presence.Json.Writer

namespace Presence

/-- The console's reply to a line. -/
inductive Reply where
  /-- The command has been carried out. -/
  | ok
  /-- The command names a peer that is not tracked. -/
  | unknownPeer (id : String)
  /-- What is known of a peer. -/
  | sighting (s : Sighting)
  /-- All tracked peers. -/
  | listing (r : Registry)
  /-- The peers that have been forgotten. -/
  | pruned (ids : List String)
  /-- The line is no command. -/
  | rejected (e : CommandError)
  deriving DecidableEq

/-- The reply as the user sees it, one line without its end. -/
def Reply.text : Reply → String
  | ok => "ok"
  | unknownPeer id => "unknown peer " ++ id
  | sighting s => String.ofList (Json.sighting s)
  | listing r => String.ofList (Json.registry r)
  | pruned ids => String.ofList (Json.stringArray ids)
  | rejected e => "error: " ++ e.message

/-- Carries out a command. -/
def Command.run (c : Command) (n : Node) : Outcome Reply :=
  match c with
  | upsert id content =>
    let o := n.upsert id content
    { o.map fun _ => Reply.ok with log := .upserting id :: o.log }
  | touch id => (n.touch id).map fun known => if known then .ok else .unknownPeer id
  | remove id => (n.remove id).map fun
    | some _ => .ok
    | none => .unknownPeer id
  | get id =>
    match n.peers.get? id with
    | some s => ⟨.ok (.sighting s), n, []⟩
    | none => ⟨.ok (.unknownPeer id), n, []⟩
  | list => ⟨.ok (.listing n.peers), n, []⟩
  | prune maxAge =>
    ((n.dropOlderThan maxAge).logging fun ids => [.consolePruned ids.length]).map .pruned

/-- Carries out a line; a line of blanks gets no reply. -/
def Node.respond (line : String) (n : Node) : Outcome (Option Reply) :=
  match Command.parse line with
  | .ok (some c) => (c.run n).map some
  | .ok none => ⟨.ok none, n, []⟩
  | .error e => ⟨.ok (some (.rejected e)), n, []⟩

end Presence
