/-
Presence/Proofs/Lock.lean

What a poisoned lock changes: nothing that anybody is told.

Whoever breaks off with the lock held leaves a mark on it (`Node.brokenOff`), and
from then on everybody who takes the lock is warned.  The mark is a component of
the node that an operation carries along:

    (n.brokenOff lock).reading own use  =  (n.reading own use).brokenOff lock,

because the registry behind the lock is the same with a warning and without one
(`Node.peers_eq`).  So it is with every operation, with every action of a session
(`Session.perform_brokenOff`), and hence with a session as a whole: its steps are
the same, and at the end there is the mark (`Session.run_brokenOff`).
-/
import Presence.Proofs.Effect

namespace Presence

/-- The outcome at a node that somebody has left who broke off with the lock held or free. -/
def Outcome.brokenOff {α : Type} (lock : Lock) (o : Outcome α) : Outcome α :=
  { o with node := o.node.brokenOff lock }

/-- The session on a node that somebody has left who broke off with the lock held or free. -/
def Session.brokenOff (s : Session) (lock : Lock) : Session :=
  { s with node := s.node.brokenOff lock }

/-! ### Marks -/

namespace Node

variable (n : Node) (lock : Lock)

/-- It does not matter in which order marks are left. -/
theorem brokenOff_brokenOff (other : Lock) :
    (n.brokenOff lock).brokenOff other = (n.brokenOff other).brokenOff lock := by
  simp only [brokenOff, Bool.or_right_comm]

end Node

/-! ### Operations -/

namespace Outcome

variable {α β : Type} (o : Outcome α) (lock : Lock)

theorem map_brokenOff (f : α → β) : (o.brokenOff lock).map f = (o.map f).brokenOff lock := rfl

theorem logging_brokenOff (notices : α → List Notice) :
    (o.brokenOff lock).logging notices = (o.logging notices).brokenOff lock := by
  obtain ⟨f | a, node, log⟩ := o <;> rfl

end Outcome

namespace Node

variable {α : Type} (n : Node) (lock : Lock)

theorem reading_brokenOff (own : Lock) (use : Instant → α × Registry) :
    (n.brokenOff lock).reading own use = (n.reading own use).brokenOff lock := by
  have hclock : (n.brokenOff lock).clock = n.clock := rfl
  -- whoever breaks off here leaves a mark beside the one that is there
  have hmarks : (n.brokenOff lock).tick.brokenOff own = (n.tick.brokenOff own).brokenOff lock :=
    n.tick.brokenOff_brokenOff lock own
  rw [reading, reading, hclock, hmarks]
  rcases n.clock.now? with - | now <;> rfl

theorem upsert_brokenOff (id content : String) :
    (n.brokenOff lock).upsert id content = (n.upsert id content).brokenOff lock := by
  rw [upsert_eq, upsert_eq]
  exact n.reading_brokenOff lock _ _

theorem touch_brokenOff (id : String) :
    (n.brokenOff lock).touch id = (n.touch id).brokenOff lock := by
  have hsame : (n.brokenOff lock).registry = n.registry := rfl
  rw [touch_eq, touch_eq, hsame]
  rcases n.registry.get? id with - | s
  · rfl
  · exact n.reading_brokenOff lock _ _

theorem remove_brokenOff (id : String) :
    (n.brokenOff lock).remove id = (n.remove id).brokenOff lock := by
  rw [remove_eq, remove_eq]
  rfl

theorem dropBefore_brokenOff (cutoff : Instant) :
    (n.brokenOff lock).dropBefore cutoff = (n.dropBefore cutoff).brokenOff lock := by
  rw [dropBefore_eq, dropBefore_eq]
  rfl

theorem dropOlderThan_brokenOff (maxAge : Age) :
    (n.brokenOff lock).dropOlderThan maxAge = (n.dropOlderThan maxAge).brokenOff lock := by
  rw [dropOlderThan_eq, dropOlderThan_eq]
  exact n.reading_brokenOff lock _ _

theorem sweep_brokenOff (maxAge : Age) :
    (n.brokenOff lock).sweep maxAge = (n.sweep maxAge).brokenOff lock := by
  have hsize : ((n.dropOlderThan maxAge).brokenOff lock).node.peers =
      (n.dropOlderThan maxAge).node.peers := by
    rw [peers_eq, peers_eq]
    rfl
  simp only [sweep, dropOlderThan_brokenOff, hsize]
  exact Outcome.logging_brokenOff _ _ _

theorem run_brokenOff (c : Command) :
    c.run (n.brokenOff lock) = (c.run n).brokenOff lock := by
  cases c with
  | upsert id content =>
    simp only [Command.run, upsert_brokenOff]
    rfl
  | touch id => simp only [Command.run, touch_brokenOff, Outcome.map_brokenOff]
  | remove id => simp only [Command.run, remove_brokenOff, Outcome.map_brokenOff]
  | get id =>
    have hsame : (n.brokenOff lock).registry = n.registry := rfl
    rw [run_get_eq, run_get_eq, hsame]
    rcases n.registry.get? id with - | s <;> rfl
  | list =>
    rw [run_list_eq, run_list_eq]
    rfl
  | prune maxAge =>
    simp only [Command.run, dropOlderThan_brokenOff, Outcome.logging_brokenOff,
      Outcome.map_brokenOff]

theorem respond_brokenOff (line : String) :
    (n.brokenOff lock).respond line = (n.respond line).brokenOff lock := by
  simp only [respond]
  rcases Command.parse line with e | - | c
  · rfl
  · rfl
  · exact congrArg (Outcome.map some) (n.run_brokenOff lock c)

end Node

/-! ### Sessions -/

namespace Session

variable (s : Session) (lock : Lock)

/-- An action gives the same step with a mark on the lock, and leaves the mark there. -/
theorem perform_brokenOff (a : Action) :
    (s.brokenOff lock).perform a = ((s.perform a).1, (s.perform a).2.brokenOff lock) := by
  have hpeers : (s.brokenOff lock).node.peers = s.node.peers := by
    rw [Node.peers_eq, Node.peers_eq]
    rfl
  have houtcome : (s.brokenOff lock).outcome a = (s.outcome a).brokenOff lock := by
    cases a with
    | upsert id content =>
      exact congrArg (Outcome.map _) (s.node.upsert_brokenOff lock id content)
    | touch id => exact congrArg (Outcome.map _) (s.node.touch_brokenOff lock id)
    | remove id => exact congrArg (Outcome.map _) (s.node.remove_brokenOff lock id)
    | prune cutoff => exact congrArg (Outcome.map _) (s.node.dropBefore_brokenOff lock cutoff)
    | sweep maxAge => exact congrArg (Outcome.map _) (s.node.sweep_brokenOff lock maxAge)
    | line text => exact congrArg (Outcome.map _) (s.node.respond_brokenOff lock text)
    | command c => exact congrArg (Outcome.map _) (s.node.run_brokenOff lock c)
    | get _ | contains _ | size | isEmpty | snapshot =>
      simp only [outcome, hpeers]
      rfl
    | setClock _ | advance _ | hold | held => rfl
  simp only [perform, houtcome, hpeers]
  rfl

/-- **Nobody is told of a poisoned lock.**  However a session goes on, with a mark on the lock it
takes the same steps, and in the end it differs by the mark alone. -/
theorem run_brokenOff (actions : List Action) :
    (s.brokenOff lock).run actions = ((s.run actions).1, (s.run actions).2.brokenOff lock) := by
  induction actions generalizing s with
  | nil => rfl
  | cons a rest ih => simp only [run, perform_brokenOff, ih]

end Session

end Presence
