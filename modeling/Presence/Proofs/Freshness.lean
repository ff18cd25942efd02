/-
Presence/Proofs/Freshness.lean

How long ago a peer was seen at most, action by action.

`Session.SeenSince id bound` says that what is known of a peer, if it is known at
all, was noted at `bound` or later.  Three things can be said of it:

    no action makes it false, if the clock shows `bound` or later;
    an action that sees the peer makes it true of the present time;
    a sweep makes it true of the present time less the age that is swept.

The second is all that a peer can do for itself, and the third is all that a
sweep does.  Absent peers satisfy it for every bound, so a touch of a peer that
is not tracked needs no case of its own.
-/
import Presence.Proofs.Cutoff
import Presence.Proofs.PeerHistory

namespace Presence

/-! ### Actions that see a peer -/

/-- The command tracks the peer or touches it. -/
def Command.sees (id : String) : Command → Bool
  | upsert key _ => key = id
  | touch key => key = id
  | remove _ | get _ | list | prune _ => false

/-- The command that an action amounts to, if it amounts to one. -/
def Action.command? : Action → Option Command
  | upsert key content => some (.upsert key content)
  | touch key => some (.touch key)
  | remove key => some (.remove key)
  | sweep maxAge => some (.prune maxAge)
  | command c => some c
  | line text =>
    match Command.parse text with
    | .ok c => c
    | .error _ => none
  | _ => none

/-- The action tracks the peer or touches it, by itself or through the console. -/
def Action.sees (id : String) (a : Action) : Bool := a.command?.any (Command.sees id)

namespace PeerEvent

/-- The event notes a time for the peer, if it is tracked. -/
def Notes (now : Instant) (e : PeerEvent) : Prop :=
  (∃ content, e = upserted content (some now)) ∨ e = touched (some now)

/-- After an event the peer has the time that it had, or the one that the event notes. -/
theorem lastSeen_apply {known : Option Sighting} {e : PeerEvent} {x : Sighting}
    (h : apply known e = some x) :
    (∃ y, known = some y ∧ x.lastSeen = y.lastSeen) ∨ e.Notes x.lastSeen := by
  cases e with
  | upserted content now? =>
    cases now? with
    | none => exact Or.inl ⟨x, h, rfl⟩
    | some now =>
      obtain rfl := Option.some.inj h
      exact Or.inr (Or.inl ⟨content, rfl⟩)
  | touched now? =>
    cases now? with
    | none => exact Or.inl ⟨x, h, rfl⟩
    | some now =>
      obtain ⟨y, -, rfl⟩ := Option.map_eq_some_iff.1 h
      exact Or.inr (Or.inr rfl)
  | removed => simp [apply] at h
  | pruned cutoff? =>
    cases cutoff? with
    | none => exact Or.inl ⟨x, h, rfl⟩
    | some cutoff => exact Or.inl ⟨x, (Option.filter_eq_some_iff.1 h).1, rfl⟩

/-- An event that notes a time leaves the peer with this time, or unknown. -/
theorem lastSeen_apply_of_notes {known : Option Sighting} {e : PeerEvent} {x : Sighting}
    {now : Instant} (he : e.Notes now) (h : apply known e = some x) : x.lastSeen = now := by
  obtain ⟨content, rfl⟩ | rfl := he
  · obtain rfl := Option.some.inj h
    rfl
  · obtain ⟨y, -, rfl⟩ := Option.map_eq_some_iff.1 h
    rfl

end PeerEvent

/-! ### What events an action can be -/

theorem Command.now?_of_notes {id : String} {now? : Option Instant} {c : Command} {e : PeerEvent}
    {now : Instant} (h : c.eventFor id now? = some e) (he : e.Notes now) : now? = some now := by
  cases c with
  | upsert key content =>
    obtain ⟨-, hevent⟩ := Option.ite_none_right_eq_some.1 h
    obtain rfl := Option.some.inj hevent
    simpa [PeerEvent.Notes] using he
  | touch key =>
    obtain ⟨-, hevent⟩ := Option.ite_none_right_eq_some.1 h
    obtain rfl := Option.some.inj hevent
    simpa [PeerEvent.Notes] using he
  | remove key =>
    obtain ⟨-, hevent⟩ := Option.ite_none_right_eq_some.1 h
    obtain rfl := Option.some.inj hevent
    simp [PeerEvent.Notes] at he
  | get key => simp [eventFor] at h
  | list => simp [eventFor] at h
  | prune maxAge =>
    obtain rfl := Option.some.inj h
    simp [PeerEvent.Notes] at he

theorem Action.eventFor_of_command? {id : String} {now? : Option Instant} {a : Action} {c : Command}
    (h : a.command? = some c) : a.eventFor id now? = c.eventFor id now? := by
  cases a with
  | line text =>
    simp only [command?, eventFor] at h ⊢
    rcases hparse : Command.parse text with f | c' <;> simp_all
  | upsert _ _ | touch _ | remove _ | sweep _ | command _ =>
    obtain rfl := Option.some.inj h
    rfl
  | setClock _ | advance _ | get _ | contains _ | size | isEmpty | snapshot | hold | held
  | prune _ => simp [command?] at h

/-- An action that is no command is a prune, or no event for anybody. -/
theorem Action.prune_or_eventFor_eq_none {a : Action} (h : a.command? = none) :
    (∃ cutoff, a = .prune cutoff) ∨ ∀ id now?, a.eventFor id now? = none := by
  cases a with
  | prune cutoff => exact Or.inl ⟨cutoff, rfl⟩
  | line text =>
    refine Or.inr fun id now? => ?_
    simp only [command?, eventFor] at h ⊢
    rcases hparse : Command.parse text with f | c <;> simp_all
  | upsert _ _ | touch _ | remove _ | sweep _ | command _ => cases h
  | setClock _ | advance _ | get _ | contains _ | size | isEmpty | snapshot | hold | held =>
    exact Or.inr fun _ _ => rfl

/-- The only time that an action notes is the one that the clock shows. -/
theorem Action.now?_of_notes {id : String} {now? : Option Instant} {a : Action} {e : PeerEvent}
    {now : Instant} (h : a.eventFor id now? = some e) (he : e.Notes now) : now? = some now := by
  rcases hc : a.command? with - | c
  · -- what is no command notes nothing
    obtain ⟨cutoff, rfl⟩ | hnone := prune_or_eventFor_eq_none hc
    · obtain rfl := Option.some.inj h
      simp [PeerEvent.Notes] at he
    · rw [hnone] at h
      cases h
  · rw [eventFor_of_command? hc] at h
    exact Command.now?_of_notes h he

theorem Command.notes_of_sees {id : String} {c : Command} (h : c.sees id = true) (now : Instant) :
    ∃ e, c.eventFor id (some now) = some e ∧ e.Notes now := by
  cases c with
  | upsert key content =>
    obtain rfl : key = id := by simpa [sees] using h
    exact ⟨_, if_pos rfl, Or.inl ⟨content, rfl⟩⟩
  | touch key =>
    obtain rfl : key = id := by simpa [sees] using h
    exact ⟨_, if_pos rfl, Or.inr rfl⟩
  | remove _ | get _ | list | prune _ => simp [sees] at h

/-- An action that sees a peer notes what the clock shows. -/
theorem Action.notes_of_sees {id : String} {a : Action} (h : a.sees id = true) (now : Instant) :
    ∃ e, a.eventFor id (some now) = some e ∧ e.Notes now := by
  obtain ⟨c, hc, hsees⟩ := (Option.any_eq_true _ _).1 h
  rw [eventFor_of_command? hc]
  exact Command.notes_of_sees hsees now

/-! ### Since when a peer has been seen -/

namespace Session

/-- What is known of the peer was noted at this time or later. -/
def SeenSince (id : String) (bound : Int) (s : Session) : Prop :=
  ∀ x, s.node.registry.get? id = some x → x.lastSeen.InRange ∧ bound ≤ x.lastSeen.toNanos

variable {id : String} {bound : Int} {s : Session} {a : Action}

theorem SeenSince.mono (h : s.SeenSince id bound) {lower : Int} (hle : lower ≤ bound) :
    s.SeenSince id lower := by
  intro x hx
  obtain ⟨hrange, hbound⟩ := h x hx
  exact ⟨hrange, Int.le_trans hle hbound⟩

theorem seenSince_start (clock : Clock) : (start clock).SeenSince id bound := by
  intro x hx
  have hnone : (start clock).node.registry.get? id = none := Registry.get?_empty id
  simp [hnone] at hx

/-- No action makes a peer older than it is. -/
theorem SeenSince.perform (h : s.SeenSince id bound) (hbound : bound ≤ s.node.clock.nanos)
    (a : Action) : (s.perform a).2.SeenSince id bound := by
  intro x hx
  rw [get?_perform] at hx
  rcases he : a.eventFor id s.node.clock.now? with - | e <;> rw [he] at hx
  · exact h x hx
  · -- an event keeps the time that is known, or notes the present one
    obtain ⟨y, hy, hseen⟩ | hnotes := PeerEvent.lastSeen_apply hx
    · rw [hseen]
      exact h y hy
    · have hnow := Action.now?_of_notes he hnotes
      obtain ⟨-, hnanos⟩ := Clock.now?_eq_some_iff.1 hnow
      refine ⟨(Clock.inRange_of_now? hnow).1, ?_⟩
      rw [hnanos, Instant.toNanos_ofNanos]
      exact hbound

/-- What is known of a peer was noted at some time that can be represented, and every action keeps
it so. -/
theorem exists_seenSince_run (id : String) (actions : List Action)
    (h : ∃ bound, s.SeenSince id bound) : ∃ bound, (s.run actions).2.SeenSince id bound := by
  induction actions generalizing s with
  | nil => exact h
  | cons a rest ih =>
    obtain ⟨bound, hbound⟩ := h
    -- the clock may go back, and the bound with it
    have hlower := hbound.mono (Int.min_le_left bound s.node.clock.nanos)
    exact ih ⟨_, hlower.perform (Int.min_le_right bound s.node.clock.nanos) a⟩

/-- All times that are noted can be represented. -/
def InRange (s : Session) : Prop :=
  ∀ id x, s.node.registry.get? id = some x → x.lastSeen.InRange

theorem InRange.perform (h : s.InRange) (a : Action) : (s.perform a).2.InRange := by
  intro id x hx
  have hseen : ∃ bound, s.SeenSince id bound := by
    rcases hy : s.node.registry.get? id with - | y
    · refine ⟨0, ?_⟩
      intro z hz
      simp [hy] at hz
    · refine ⟨y.lastSeen.toNanos, ?_⟩
      intro z hz
      obtain rfl := Option.some.inj (hy.symm.trans hz)
      exact ⟨h id y hy, Int.le_refl _⟩
  obtain ⟨bound, hbound⟩ := hseen
  have hlower := hbound.mono (Int.min_le_left bound s.node.clock.nanos)
  exact (hlower.perform (Int.min_le_right bound s.node.clock.nanos) a x hx).1

theorem inRange_run (clock : Clock) (actions : List Action) :
    ((start clock).run actions).2.InRange := by
  intro id x hx
  obtain ⟨bound, hbound⟩ := exists_seenSince_run id actions ⟨0, seenSince_start clock⟩
  exact (hbound x hx).1

/-- Whoever is seen now was seen now, or is not tracked. -/
theorem seenSince_perform_of_sees (hread : s.node.clock.Readable) (hsees : a.sees id = true) :
    (s.perform a).2.SeenSince id s.node.clock.nanos := by
  have hnow : s.node.clock.now? = some (Instant.ofNanos s.node.clock.nanos) :=
    Clock.now?_eq_some_iff.2 ⟨hread, rfl⟩
  obtain ⟨e, he, hnotes⟩ := Action.notes_of_sees hsees (Instant.ofNanos s.node.clock.nanos)
  intro x hx
  rw [get?_perform, hnow, he] at hx
  rw [PeerEvent.lastSeen_apply_of_notes hnotes hx]
  exact ⟨(Clock.inRange_of_now? hnow).1, Int.le_of_eq (Instant.toNanos_ofNanos _).symm⟩

/-- A sweep keeps of a peer what was known of it, exactly if the peer is not older than the age. -/
theorem get?_perform_sweep (h : s.SeenSince id bound) (hread : s.node.clock.Readable)
    {maxAge : Age} (hage : maxAge.Ordinary) {x : Sighting} :
    (s.perform (.sweep maxAge)).2.node.registry.get? id = some x ↔
      s.node.registry.get? id = some x ∧
        s.node.clock.nanos - x.lastSeen.toNanos ≤ maxAge.toNanos := by
  have hnow : s.node.clock.now? = some (Instant.ofNanos s.node.clock.nanos) :=
    Clock.now?_eq_some_iff.2 ⟨hread, rfl⟩
  have hevent : (s.perform (.sweep maxAge)).2.node.registry.get? id =
      (s.node.registry.get? id).filter fun x =>
        ¬ x.lastSeen < cutoffBefore (Instant.ofNanos s.node.clock.nanos) maxAge := by
    simp only [get?_perform, Action.eventFor, Command.eventFor, hnow, Option.map_some,
      Option.toList_some, List.foldl_cons, List.foldl_nil, PeerEvent.apply]
  rw [hevent, Option.filter_eq_some_iff]
  apply and_congr_right
  intro hx
  -- the cutoff is taken by instants, the age by nanoseconds
  have hcutoff := lt_cutoffBefore_iff (Clock.inRange_of_now? hnow).1 (h x hx).1 hage
  rw [Instant.toNanos_ofNanos] at hcutoff
  rw [decide_eq_true_iff, hcutoff, Int.not_lt]

/-- A sweep leaves nobody older than its age. -/
theorem SeenSince.sweep (h : s.SeenSince id bound) (hread : s.node.clock.Readable) {maxAge : Age}
    (hage : maxAge.Ordinary) :
    (s.perform (.sweep maxAge)).2.SeenSince id
      (max bound (s.node.clock.nanos - maxAge.toNanos)) := by
  intro x hx
  obtain ⟨hknown, hyoung⟩ := (get?_perform_sweep h hread hage).1 hx
  obtain ⟨hrange, hbound⟩ := h x hknown
  exact ⟨hrange, by omega⟩

end Session

end Presence
