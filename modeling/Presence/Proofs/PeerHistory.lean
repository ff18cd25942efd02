/-
Presence/Proofs/PeerHistory.lean

The history of one peer, and the registry as the histories of all peers.

A registry changes under operations on any id, and a prune looks at all ids at
once.  Seen from one id only a few operations matter: those that name it, and
the prunes.  `PeerEvent` is such an operation reduced to what it means for one
peer, together with what the clock showed where the operation reads it;
`PeerEvent.replay` is a machine that knows of no other peer:

    upserted c (some t)   the sighting becomes (c, t)
    touched (some t)      a sighting, if there is one, gets the time t
    removed               there is no sighting any more
    pruned (some t)       a sighting stays unless it is older than t

and an event whose clock could not be read changes nothing.
`Session.history` picks the events of one peer out of a session.

Main result: after every session the registry holds for an id what the machine
makes of the id's history (`get?_run_eq_replay_history`).  The step lemma is
`get?_perform`; it says all that an action can do to a look-up.
-/
import Presence.Proofs.Effect
import Presence.Proofs.Lookup
import Mathlib.Data.List.Induction

namespace Presence

/-! ### One peer -/

/-- What happens to a peer, with what the clock showed if the operation reads it. -/
inductive PeerEvent where
  /-- The peer is tracked with a content, seen now. -/
  | upserted (content : String) (now? : Option Instant)
  /-- The peer is seen now, if it is tracked. -/
  | touched (now? : Option Instant)
  /-- The peer is forgotten. -/
  | removed
  /-- All peers last seen before a cutoff are forgotten. -/
  | pruned (cutoff? : Option Instant)
  deriving DecidableEq, Repr

namespace PeerEvent

/-- What is known of the peer after an event. -/
def apply (known : Option Sighting) : PeerEvent → Option Sighting
  | upserted content (some now) => some ⟨content, now⟩
  | touched (some now) => known.map fun s => { s with lastSeen := now }
  | removed => none
  | pruned (some cutoff) => known.filter fun s => ¬ s.lastSeen < cutoff
  | upserted _ none | touched none | pruned none => known

/-- What is known of a peer, unknown at first, after a number of events. -/
def replay (events : List PeerEvent) : Option Sighting := events.foldl apply none

/-- The event changes nothing, whatever is known of the peer. -/
def Idle (e : PeerEvent) : Prop := ∀ known, apply known e = known

/-- The time at which an event touches the peer. -/
def touch? : PeerEvent → Option Instant
  | touched now? => now?
  | _ => none

/-- The event tracks the peer anew: an upsert for which the clock could be read. -/
def Founds : PeerEvent → Prop
  | upserted _ (some _) => True
  | _ => False

/-- The history accounts for a sighting: its content is that of the last upsert, the peer has not
been removed since, and its time is that of the last of this upsert and the touches behind it. -/
def AccountsFor (events : List PeerEvent) (s : Sighting) : Prop :=
  ∃ earlier now later, events = earlier ++ upserted s.content (some now) :: later ∧
    (∀ e ∈ later, ¬ e.Founds ∧ e ≠ removed) ∧
    s.lastSeen = (later.filterMap touch?).getLastD now

/-- A further event that neither founds nor removes is accounted for by its touch, if it is one. -/
theorem AccountsFor.concat {events : List PeerEvent} {s t : Sighting} {e : PeerEvent}
    (h : AccountsFor events t) (hcontent : s.content = t.content) (hfounds : ¬ e.Founds)
    (hremoved : e ≠ removed) (hseen : s.lastSeen = e.touch?.getD t.lastSeen) :
    AccountsFor (events ++ [e]) s := by
  obtain ⟨earlier, now, later, rfl, hlater, hlast⟩ := h
  refine ⟨earlier, now, later ++ [e], by simp [hcontent], ?_, ?_⟩
  · intro d hd
    rcases List.mem_append.1 hd with hd | hd
    · exact hlater d hd
    · rw [List.mem_singleton.1 hd]
      exact ⟨hfounds, hremoved⟩
  · rw [hseen, hlast, List.filterMap_append]
    rcases he : e.touch? with - | now' <;> simp [he]

theorem accountsFor_of_replay {events : List PeerEvent} {s : Sighting}
    (h : replay events = some s) : AccountsFor events s := by
  -- from the last event on: it founds the sighting, or the history before it accounts for one
  induction events using List.reverseRecOn generalizing s with
  | nil => simp [replay] at h
  | append_singleton events e ih =>
    rw [replay, List.foldl_append] at h
    change apply (replay events) e = some s at h
    cases e with
    | upserted content now? =>
      cases now? with
      | none => exact (ih h).concat rfl (by simp [Founds]) (by simp) rfl
      | some now =>
        obtain rfl := Option.some.inj h
        exact ⟨events, now, [], rfl, by simp, rfl⟩
    | touched now? =>
      cases now? with
      | none => exact (ih h).concat rfl (by simp [Founds]) (by simp) rfl
      | some now =>
        obtain ⟨t, ht, rfl⟩ := Option.map_eq_some_iff.1 h
        exact (ih ht).concat rfl (by simp [Founds]) (by simp) rfl
    | removed => simp [apply] at h
    | pruned cutoff? =>
      cases cutoff? with
      | none => exact (ih h).concat rfl (by simp [Founds]) (by simp) rfl
      | some cutoff =>
        obtain ⟨ht, -⟩ := Option.filter_eq_some_iff.1 h
        exact (ih ht).concat rfl (by simp [Founds]) (by simp) rfl

end PeerEvent

/-! ### What an operation is for one peer -/

/-- What a command is for a peer when the clock shows a time; nothing if it neither names the
peer nor prunes. -/
def Command.eventFor (id : String) (now? : Option Instant) : Command → Option PeerEvent
  | upsert key content => if key = id then some (.upserted content now?) else none
  | touch key => if key = id then some (.touched now?) else none
  | remove key => if key = id then some .removed else none
  | prune maxAge => some (.pruned (now?.map fun now => cutoffBefore now maxAge))
  | get _ | list => none

/-- What an action is for a peer when the clock shows a time; nothing if it neither names the
peer nor prunes. -/
def Action.eventFor (id : String) (now? : Option Instant) : Action → Option PeerEvent
  | upsert key content => (Command.upsert key content).eventFor id now?
  | touch key => (Command.touch key).eventFor id now?
  | remove key => (Command.remove key).eventFor id now?
  | prune cutoff => some (.pruned (some cutoff))
  | sweep maxAge => (Command.prune maxAge).eventFor id now?
  | command c => c.eventFor id now?
  | line text =>
    match Command.parse text with
    | .ok (some c) => c.eventFor id now?
    | _ => none
  | setClock _ | advance _ | get _ | contains _ | size | isEmpty | snapshot | hold | held => none

/-- The events of one peer in a session, in order.  The other peers' operations are left out;
they count only for what the clock shows. -/
def Session.history (id : String) (s : Session) : List Action → List PeerEvent
  | [] => []
  | a :: rest => (a.eventFor id s.node.clock.now?).toList ++ (s.perform a).2.history id rest

/-! ### One step -/

namespace Node

variable (n : Node) (id : String)

theorem get?_upsert (key content : String) :
    (n.upsert key content).node.registry.get? id =
      if key = id then PeerEvent.apply (n.registry.get? id) (.upserted content n.clock.now?)
      else n.registry.get? id := by
  rw [upsert_eq, registry_reading]
  rcases n.clock.now? with - | now
  · simp [PeerEvent.apply]
  · exact Registry.get?_insert _ _ _ _

theorem get?_touch (key : String) :
    (n.touch key).node.registry.get? id =
      if key = id then PeerEvent.apply (n.registry.get? id) (.touched n.clock.now?)
      else n.registry.get? id := by
  rw [touch_eq]
  rcases hk : n.registry.get? key with - | s
  · -- an unknown peer: the clock is not even looked at
    by_cases h : key = id
    · subst h
      rcases n.clock.now? with - | now <;> simp [hk, PeerEvent.apply]
    · simp [h]
  · rw [registry_reading]
    rcases n.clock.now? with - | now
    · simp [PeerEvent.apply]
    · by_cases h : key = id
      · subst h
        simp [Registry.get?_insert, hk, PeerEvent.apply]
      · simp [Registry.get?_insert, h]

theorem get?_remove (key : String) :
    (n.remove key).node.registry.get? id =
      if key = id then PeerEvent.apply (n.registry.get? id) .removed else n.registry.get? id := by
  rw [remove_eq]
  exact Registry.get?_erase _ _ _

theorem get?_dropBefore (cutoff : Instant) :
    (n.dropBefore cutoff).node.registry.get? id =
      PeerEvent.apply (n.registry.get? id) (.pruned (some cutoff)) := by
  rw [dropBefore_eq]
  exact Registry.get?_prune _ _ _

theorem get?_dropOlderThan (maxAge : Age) :
    (n.dropOlderThan maxAge).node.registry.get? id =
      PeerEvent.apply (n.registry.get? id)
        (.pruned (n.clock.now?.map fun now => cutoffBefore now maxAge)) := by
  rw [dropOlderThan_eq, registry_reading]
  rcases n.clock.now? with - | now
  · rfl
  · exact Registry.get?_prune _ _ _

theorem get?_run (c : Command) :
    (c.run n).node.registry.get? id =
      (c.eventFor id n.clock.now?).toList.foldl PeerEvent.apply (n.registry.get? id) := by
  cases c with
  | upsert key content =>
    refine (get?_upsert n id key content).trans ?_
    rw [Command.eventFor]
    split <;> rfl
  | touch key =>
    refine (get?_touch n id key).trans ?_
    rw [Command.eventFor]
    split <;> rfl
  | remove key =>
    refine (get?_remove n id key).trans ?_
    rw [Command.eventFor]
    split <;> rfl
  | get key =>
    simp only [Command.run, Command.eventFor]
    split <;> rfl
  | list => rfl
  | prune maxAge =>
    simp only [Command.run, Outcome.node_map, Outcome.node_logging, Command.eventFor]
    exact get?_dropOlderThan n id maxAge

theorem get?_respond (text : String) :
    (n.respond text).node.registry.get? id =
      ((Action.line text).eventFor id n.clock.now?).toList.foldl PeerEvent.apply
        (n.registry.get? id) := by
  simp only [respond, Action.eventFor]
  rcases Command.parse text with e | - | c
  · rfl
  · rfl
  · exact get?_run n id c

/-! ### One step that breaks off -/

variable {f : Fault} {e : PeerEvent}

theorem idle_of_run_error (c : Command) (h : (c.run n).result = .error f)
    (he : c.eventFor id n.clock.now? = some e) : e.Idle := by
  cases c with
  | upsert key content =>
    have hnow := now?_of_reading_error _ _ ((Outcome.result_map_eq_error _).1 h)
    obtain ⟨-, hevent⟩ := Option.ite_none_right_eq_some.1 he
    obtain rfl := Option.some.inj hevent
    intro known
    rw [hnow, PeerEvent.apply]
  | touch key =>
    have htouch : (n.touch key).result = .error f := (Outcome.result_map_eq_error _).1 h
    have hnow : n.clock.now? = none := by
      unfold touch at htouch
      split at htouch
      · exact now?_of_reading_error _ _ htouch
      · simp at htouch
    obtain ⟨-, hevent⟩ := Option.ite_none_right_eq_some.1 he
    obtain rfl := Option.some.inj hevent
    intro known
    rw [hnow, PeerEvent.apply]
  | remove key => simp [Command.run, remove, Except.map] at h
  | get key => simp [Command.eventFor] at he
  | list => simp [Command.eventFor] at he
  | prune maxAge =>
    have hdrop := (Outcome.result_map_eq_error _).1 h
    rw [Outcome.result_logging] at hdrop
    have hnow := now?_of_reading_error _ _ hdrop
    obtain rfl := Option.some.inj he
    intro known
    rw [hnow, Option.map_none, PeerEvent.apply]

end Node

namespace Session

variable (id : String) (s : Session)

/-- What an action of a session does to the look-up of an id, in one equation for all actions. -/
theorem get?_perform (a : Action) :
    (s.perform a).2.node.registry.get? id =
      (a.eventFor id s.node.clock.now?).toList.foldl PeerEvent.apply
        (s.node.registry.get? id) := by
  cases a with
  | upsert key content => exact s.node.get?_run id (.upsert key content)
  | touch key => exact s.node.get?_run id (.touch key)
  | remove key => exact s.node.get?_run id (.remove key)
  | prune cutoff => exact s.node.get?_dropBefore id cutoff
  | sweep maxAge =>
    simp only [perform, outcome, Outcome.node_map, Node.node_sweep]
    exact s.node.get?_dropOlderThan id maxAge
  | command c => exact s.node.get?_run id c
  | line text => exact s.node.get?_respond id text
  | setClock _ | advance _ | get _ | contains _ | size | isEmpty | snapshot | hold | held =>
    -- these do not touch the registry, and are no event for any peer
    rfl

theorem idle_of_perform_error {a : Action} {f : Fault} {e : PeerEvent}
    (h : (s.perform a).1.answer = .error f) (he : a.eventFor id s.node.clock.now? = some e) :
    e.Idle := by
  cases a with
  | upsert key content =>
    have hrun : ((Command.upsert key content).run s.node).result = .error f :=
      (Outcome.result_map_eq_error _).2 ((Outcome.result_map_eq_error _).1 h)
    exact s.node.idle_of_run_error id _ hrun he
  | touch key =>
    have hrun : ((Command.touch key).run s.node).result = .error f :=
      (Outcome.result_map_eq_error _).2 ((Outcome.result_map_eq_error _).1 h)
    exact s.node.idle_of_run_error id _ hrun he
  | sweep maxAge =>
    have hsweep := (Outcome.result_map_eq_error _).1 h
    rw [Node.result_sweep] at hsweep
    have hrun : ((Command.prune maxAge).run s.node).result = .error f :=
      (Outcome.result_map_eq_error _).2 ((Outcome.result_logging _ _).trans hsweep)
    exact s.node.idle_of_run_error id _ hrun he
  | command c => exact s.node.idle_of_run_error id c ((Outcome.result_map_eq_error _).1 h) he
  | line text =>
    have hrespond := (Outcome.result_map_eq_error _).1 h
    simp only [Node.respond, Action.eventFor] at hrespond he
    split at he
    · next c hc =>
      rw [hc] at hrespond
      exact s.node.idle_of_run_error id c ((Outcome.result_map_eq_error _).1 hrespond) he
    · simp at he
  | remove key => simp [perform, outcome, Node.remove, Except.map] at h
  | prune cutoff => simp [perform, outcome, Node.dropBefore, Except.map] at h
  | setClock _ | advance _ | get _ | contains _ | size | isEmpty | snapshot | hold | held =>
    simp [Action.eventFor] at he

/-! ### A whole session -/

theorem get?_run (actions : List Action) :
    (s.run actions).2.node.registry.get? id =
      (s.history id actions).foldl PeerEvent.apply (s.node.registry.get? id) := by
  induction actions generalizing s with
  | nil => rfl
  | cons a rest ih =>
    rw [history, List.foldl_append, ← get?_perform]
    exact ih (s.perform a).2

end Session

/-- **Each peer lives on its own**: after any session the registry holds for an id what a machine
that sees only the operations on this id, and the prunes, makes of them.  Where it holds a
sighting, this is the content of the last upsert with the time of the last upsert or touch, and
an operation that breaks off is none for any peer. -/
theorem get?_run_eq_replay_history (clock : Clock) (actions : List Action) (id : String) :
    let start := Session.start clock
    let found := (start.run actions).2.node.registry.get? id
    found = PeerEvent.replay (start.history id actions) ∧
      (∀ s, found = some s → PeerEvent.AccountsFor (start.history id actions) s) ∧
      ∀ (s : Session) (a : Action) (f : Fault), (s.perform a).1.answer = .error f →
        ∀ e, a.eventFor id s.node.clock.now? = some e → e.Idle := by
  intro start found
  have hfound : found = PeerEvent.replay (start.history id actions) := start.get?_run id actions
  refine ⟨hfound, ?_, ?_⟩
  · intro s hs
    exact PeerEvent.accountsFor_of_replay (hfound.symm.trans hs)
  · intro s a f h e he
    exact s.idle_of_perform_error id h he

end Presence
