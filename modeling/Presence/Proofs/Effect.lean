/-
Presence/Proofs/Effect.lean

What the operations of a node do, one lemma for each part of an outcome.

All operations that look at the clock go through `Node.reading`, so what they do
to the clock and when they break off is said once, for a reading: it moves the
clock on by one step (`clock_reading`), it breaks off exactly when the clock
cannot be read (`result_reading`), and then the registry is as it was
(`registry_reading`).  What operations find behind the lock is the registry, be
the lock poisoned or not (`upsert_eq` and those after it).  Renaming a result and
logging leave the node alone.

A sweep that does not break off is a prune (`exists_of_sweep`), and if it drops
somebody it logs who it was (`log_sweep`).
-/
import Presence.Session

namespace Presence

/-! ### Outcomes -/

namespace Outcome

variable {α β : Type} (o : Outcome α)

@[simp] theorem node_map (f : α → β) : (o.map f).node = o.node := rfl

@[simp] theorem result_map (f : α → β) : (o.map f).result = o.result.map f := rfl

theorem result_map_eq_error {f : α → β} {e : Fault} :
    (o.map f).result = .error e ↔ o.result = .error e := by
  rw [result_map]
  rcases o.result with e' | a <;> simp [Except.map]

@[simp] theorem node_logging (notices : α → List Notice) : (o.logging notices).node = o.node := by
  unfold logging
  split <;> rfl

@[simp] theorem result_logging (notices : α → List Notice) :
    (o.logging notices).result = o.result := by
  unfold logging
  split <;> rfl

end Outcome

/-! ### Readings -/

namespace Node

variable {α : Type} (n : Node) {lock : Lock} (use : Instant → α × Registry)

@[simp] theorem clock_reading : (n.reading lock use).node.clock = n.clock.tick := by
  unfold reading
  split <;> rfl

theorem result_reading :
    (n.reading lock use).result = (n.clock.now?.elim (.error .clockUnreadable) fun now =>
      .ok (use now).1) := by
  unfold reading
  rcases n.clock.now? with - | now <;> rfl

theorem registry_reading :
    (n.reading lock use).node.registry = n.clock.now?.elim n.registry fun now => (use now).2 := by
  unfold reading
  rcases n.clock.now? with - | now <;> rfl

theorem log_reading : (n.reading lock use).log = [] := by
  unfold reading
  split <;> rfl

theorem reading_of_now? {now : Instant} (hnow : n.clock.now? = some now) :
    n.reading lock use = ⟨.ok (use now).1, { n.tick with registry := (use now).2 }, []⟩ := by
  rw [reading, hnow]

theorem now?_of_reading_error {f : Fault} (h : (n.reading lock use).result = .error f) :
    n.clock.now? = none := by
  rw [result_reading] at h
  rcases hnow : n.clock.now? with - | now
  · rfl
  · simp [hnow] at h

/-! ### Behind the lock -/

theorem upsert_eq (id content : String) :
    n.upsert id content = n.reading .held fun now => ((), n.registry.insert id ⟨content, now⟩) := by
  simp only [upsert, peers_eq]

theorem touch_eq (id : String) :
    n.touch id =
      match n.registry.get? id with
      | some s => n.reading .held fun now => (true, n.registry.insert id { s with lastSeen := now })
      | none => ⟨.ok false, n, []⟩ := by
  rcases hget : n.registry.get? id with - | s <;> simp only [touch, peers_eq, hget]

theorem remove_eq (id : String) :
    n.remove id =
      ⟨.ok (n.registry.get? id), { n with registry := n.registry.erase id }, []⟩ := by
  simp only [remove, peers_eq]

theorem dropBefore_eq (cutoff : Instant) :
    n.dropBefore cutoff =
      ⟨.ok (n.registry.stale cutoff), { n with registry := n.registry.prune cutoff }, []⟩ := by
  simp only [dropBefore, peers_eq]

theorem dropOlderThan_eq (maxAge : Age) :
    n.dropOlderThan maxAge = n.reading .free fun now =>
      (n.registry.stale (cutoffBefore now maxAge), n.registry.prune (cutoffBefore now maxAge)) := by
  simp only [dropOlderThan, peers_eq]

theorem run_get_eq (id : String) :
    (Command.get id).run n =
      match n.registry.get? id with
      | some s => ⟨.ok (.sighting s), n, []⟩
      | none => ⟨.ok (.unknownPeer id), n, []⟩ := by
  rcases hget : n.registry.get? id with - | s <;> simp only [Command.run, peers_eq, hget]

theorem run_list_eq : Command.list.run n = ⟨.ok (.listing n.registry), n, []⟩ := by
  simp only [Command.run, peers_eq]

/-! ### Sweeps -/

@[simp] theorem node_sweep (maxAge : Age) :
    (n.sweep maxAge).node = (n.dropOlderThan maxAge).node :=
  Outcome.node_logging _ _

@[simp] theorem result_sweep (maxAge : Age) :
    (n.sweep maxAge).result = (n.dropOlderThan maxAge).result :=
  Outcome.result_logging _ _

section

variable {n} {maxAge : Age} {ids : List String}

/-- A sweep that does not break off is a prune. -/
theorem exists_of_sweep (h : (n.sweep maxAge).result = .ok ids) :
    ∃ cutoff, ids = n.registry.stale cutoff ∧
      (n.sweep maxAge).node.registry = n.registry.prune cutoff := by
  rw [result_sweep, dropOlderThan_eq, result_reading] at h
  rw [node_sweep, dropOlderThan_eq, registry_reading]
  rcases hnow : n.clock.now? with - | now
  · rw [hnow] at h
    cases h
  · rw [hnow] at h
    exact ⟨cutoffBefore now maxAge, (Except.ok.inj h).symm, rfl⟩

/-- A sweep that drops somebody logs who it was, and nothing else. -/
theorem log_sweep (h : (n.sweep maxAge).result = .ok ids) (hne : ids ≠ []) :
    (n.sweep maxAge).log = [.sweptAway ids (n.sweep maxAge).node.registry.size] := by
  rw [result_sweep] at h
  have hlog : (n.dropOlderThan maxAge).log = [] := by
    rw [dropOlderThan, log_reading]
  rw [node_sweep, sweep, Outcome.logging, h, ← peers_eq]
  obtain ⟨id, rest, rfl⟩ := List.exists_cons_of_ne_nil hne
  show (n.dropOlderThan maxAge).log ++ _ = _
  rw [hlog, List.nil_append]

end

/-! ### What operations do to the clock -/

theorem clock_touch (id : String) :
    (n.touch id).node.clock = n.clock ∨ (n.touch id).node.clock = n.clock.tick := by
  unfold touch
  split
  · exact Or.inr (clock_reading _ _)
  · exact Or.inl rfl

theorem clock_run (c : Command) :
    (c.run n).node.clock = n.clock ∨ (c.run n).node.clock = n.clock.tick := by
  cases c with
  | upsert id content => exact Or.inr (clock_reading _ _)
  | touch id => exact clock_touch n id
  | remove id => exact Or.inl rfl
  | get id =>
    refine Or.inl ?_
    rw [run_get_eq]
    split <;> rfl
  | list => exact Or.inl rfl
  | prune maxAge =>
    refine Or.inr ?_
    simp only [Command.run, Outcome.node_map, Outcome.node_logging]
    exact clock_reading _ _

theorem clock_respond (line : String) :
    (n.respond line).node.clock = n.clock ∨ (n.respond line).node.clock = n.clock.tick := by
  unfold respond
  split
  · exact clock_run n _
  · exact Or.inl rfl
  · exact Or.inl rfl

end Node

/-- The action neither sets the clock nor moves it. -/
def Action.LeavesClock : Action → Prop
  | .setClock _ => False
  | .advance _ => False
  | _ => True

namespace Session

variable (s : Session)

/-- What an action does to the clock: nothing, one reading, or what it asks for. -/
theorem clock_perform (a : Action) :
    (s.perform a).2.node.clock = s.node.clock ∨
      (s.perform a).2.node.clock = s.node.clock.tick ∨
      (∃ t, a = .setClock t ∧ (s.perform a).2.node.clock = s.node.clock.set t) ∨
      ∃ d, a = .advance d ∧ (s.perform a).2.node.clock = s.node.clock.advance d := by
  cases a with
  | setClock t => exact Or.inr (Or.inr (Or.inl ⟨t, rfl, rfl⟩))
  | advance d => exact Or.inr (Or.inr (Or.inr ⟨d, rfl, rfl⟩))
  | upsert id content => exact Or.inr (Or.inl (Node.clock_reading _ _))
  | touch id => exact (s.node.clock_touch id).imp_right Or.inl
  | sweep maxAge =>
    refine Or.inr (Or.inl ?_)
    simp only [perform, outcome, Outcome.node_map, Node.node_sweep]
    exact Node.clock_reading _ _
  | line text => exact (s.node.clock_respond text).imp_right Or.inl
  | command c => exact (s.node.clock_run c).imp_right Or.inl
  | remove _ | get _ | contains _ | size | isEmpty | snapshot | hold | held | prune _ =>
    exact Or.inl rfl

/-- No action lets time elapse. -/
theorem elapsed_perform (a : Action) :
    (s.perform a).2.node.clock.elapsed = s.node.clock.elapsed := by
  rcases s.clock_perform a with h | h | ⟨t, -, h⟩ | ⟨d, -, h⟩ <;> rw [h] <;> rfl

theorem elapsed_run (actions : List Action) :
    (s.run actions).2.node.clock.elapsed = s.node.clock.elapsed := by
  induction actions generalizing s with
  | nil => rfl
  | cons a rest ih => exact (ih _).trans (s.elapsed_perform a)

/-- A prune gives the peers before its cutoff, and forgets them. -/
theorem perform_prune (cutoff : Instant) :
    s.perform (.prune cutoff) =
      (⟨.ok (.ids (s.node.registry.stale cutoff)), (s.node.registry.prune cutoff).size, []⟩,
        ⟨{ s.node with registry := s.node.registry.prune cutoff }, s.held⟩) := by
  simp only [perform, outcome, Node.dropBefore_eq]
  rfl

/-- A clock that readings do not move stays as it is unless somebody sets or moves it. -/
theorem clock_perform_of_steady (hstep : s.node.clock.step = 0) {a : Action}
    (ha : a.LeavesClock) : (s.perform a).2.node.clock = s.node.clock := by
  rcases s.clock_perform a with h | h | ⟨t, rfl, -⟩ | ⟨d, rfl, -⟩
  · exact h
  · have htick : s.node.clock.tick = s.node.clock := by
      unfold Clock.tick
      rw [hstep, Int.add_zero, ← hstep]
    rw [h, htick]
  · exact ha.elim
  · exact ha.elim

/-- A sweep is carried out exactly if the clock can be read. -/
theorem isOk_sweep_iff (maxAge : Age) :
    (s.perform (.sweep maxAge)).1.answer.isOk = true ↔ s.node.clock.Readable := by
  have hanswer : (s.perform (.sweep maxAge)).1.answer =
      (s.node.dropOlderThan maxAge).result.map .ids := by
    rw [← Node.result_sweep]
    rfl
  rw [hanswer, Node.dropOlderThan, Node.result_reading]
  rcases hnow : s.node.clock.now? with - | now
  · simp [Except.map, Except.isOk, Except.toBool, Clock.now?_eq_none_iff.1 hnow]
  · have hsome : s.node.clock.now? ≠ none := by simp [hnow]
    have hreadable : s.node.clock.Readable :=
      Decidable.not_not.1 (mt Clock.now?_eq_none_iff.2 hsome)
    simp [Except.map, Except.isOk, Except.toBool, hreadable]

end Session

end Presence
