/-
Presence/Proofs/BreakOff.lean

What is left of an operation that breaks off.

Operations break off only at the clock, and only one reading is taken by each.
So an operation on a node comes out in one of three ways (`Outcome.FromReading`):

    unread    it does not look at the clock, and succeeds;
    read      it looks at a clock that can be read, and succeeds;
    broken    it looks at a clock that cannot be read: the node has been
              ticked, the lock is poisoned if it was held, and that is all.

Which operations look at the clock is said apart from what they do
(`Action.readsClock`): those that stamp or compare times, a touch among them
only if the peer is tracked.  So is whether they hold the lock meanwhile
(`Action.lock`).

Main result: an action breaks off exactly if it looks at a clock that cannot be
read, and then the rest of the session cannot tell it from a mere step of the
clock (`break_off_leaves_no_trace`).  A lock that it has left poisoned is taken by
all later actions just the same (`Session.run_brokenOff`).
-/
import Presence.Proofs.Freshness
import Presence.Proofs.Lock

namespace Presence

/-! ### Who looks at the clock -/

/-- The command looks at the clock, given who is tracked. -/
def Command.readsClock (r : Registry) : Command → Bool
  | upsert _ _ => true
  | touch id => r.contains id
  | prune _ => true
  | remove _ | get _ | list => false

/-- The action looks at the clock, by itself or through the console, given who is tracked. -/
def Action.readsClock (r : Registry) (a : Action) : Bool := a.command?.any (Command.readsClock r)

/-- Whether the lock is held while the command looks at the clock. -/
def Command.lock : Command → Lock
  | upsert _ _ | touch _ => .held
  | prune _ | remove _ | get _ | list => .free

/-- Whether the lock is held while the action looks at the clock. -/
def Action.lock (a : Action) : Lock := a.command?.elim .free Command.lock

theorem Action.eq_of_not_leavesClock {a : Action} (h : ¬ a.LeavesClock) :
    (∃ t, a = .setClock t) ∨ ∃ d, a = .advance d := by
  cases a <;> simp_all [LeavesClock]

theorem Action.readsClock_of_not_leavesClock {a : Action} (h : ¬ a.LeavesClock) (r : Registry) :
    a.readsClock r = false := by
  obtain ⟨t, rfl⟩ | ⟨d, rfl⟩ := eq_of_not_leavesClock h <;> rfl

/-! ### Ways to come out -/

/-- How an operation on `n` comes out that takes one reading of the clock, or none. -/
inductive Outcome.FromReading {α : Type} (n : Node) (lock : Lock) (o : Outcome α) :
    (reads : Bool) → Prop
  | unread (a : α) : o.result = .ok a → o.node.clock = n.clock →
      o.node.poisoned = n.poisoned → FromReading n lock o false
  | read (a : α) : n.clock.Readable → o.result = .ok a → o.node.clock = n.clock.tick →
      o.node.poisoned = n.poisoned → FromReading n lock o true
  | broken : ¬ n.clock.Readable → o.result = .error .clockUnreadable →
      o.node = n.tick.brokenOff lock → FromReading n lock o true

namespace Outcome.FromReading

variable {α β : Type} {n : Node} {lock : Lock} {o : Outcome α} {reads : Bool}

/-- Neither what is logged nor how a result is told matters. -/
theorem retold {p : Outcome β} (f : α → β) (h : o.FromReading n lock reads)
    (hresult : p.result = o.result.map f) (hnode : p.node = o.node) :
    p.FromReading n lock reads := by
  cases h with
  | unread a hok hclock hlock =>
    refine .unread (f a) ?_ ?_ ?_
    · rw [hresult, hok]
      rfl
    · rw [hnode, hclock]
    · rw [hnode, hlock]
  | read a hread hok hclock hlock =>
    refine .read (f a) hread ?_ ?_ ?_
    · rw [hresult, hok]
      rfl
    · rw [hnode, hclock]
    · rw [hnode, hlock]
  | broken hread herror hticked =>
    refine .broken hread ?_ ?_
    · rw [hresult, herror]
      rfl
    · rw [hnode, hticked]

theorem map (f : α → β) (h : o.FromReading n lock reads) : (o.map f).FromReading n lock reads :=
  h.retold f rfl rfl

theorem logging (notices : α → List Notice) (h : o.FromReading n lock reads) :
    (o.logging notices).FromReading n lock reads := by
  refine h.retold id ?_ (node_logging o notices)
  rw [result_logging]
  rcases o.result with f | a <;> rfl

theorem error_iff (h : o.FromReading n lock reads) :
    (∃ f, o.result = .error f) ↔ reads = true ∧ ¬ n.clock.Readable := by
  cases h with
  | unread a hok hclock hlock => simp [hok]
  | read a hread hok hclock hlock => simp [hok, hread]
  | broken hread herror hticked => simp [herror, hread]

theorem clock_eq (h : o.FromReading n lock reads) :
    o.node.clock = if reads then n.clock.tick else n.clock := by
  cases h with
  | unread a hok hclock hlock => exact hclock
  | read a hread hok hclock hlock => exact hclock
  | broken hread herror hticked =>
    rw [hticked]
    rfl

/-- The lock is poisoned by whoever breaks off while holding it. -/
theorem poisoned_iff (h : o.FromReading n lock reads) :
    o.node.poisoned = true ↔ n.poisoned = true ∨ lock = .held ∧ ∃ f, o.result = .error f := by
  cases h with
  | unread a hok hclock hlock => simp [hok, hlock]
  | read a hread hok hclock hlock => simp [hok, hlock]
  | broken hread herror hticked => simp [herror, hticked, Node.brokenOff, Node.tick]

/-- Breaking off is a tick of the node, a mark on the lock if it is held, and no more. -/
theorem of_error (h : o.FromReading n lock reads) {f : Fault} (hf : o.result = .error f) :
    f = .clockUnreadable ∧ o.node = n.tick.brokenOff lock := by
  cases h with
  | unread a hok hclock hlock => simp [hok] at hf
  | read a hread hok hclock hlock => simp [hok] at hf
  | broken hread herror hticked => exact ⟨Except.error.inj (hf.symm.trans herror), hticked⟩

end Outcome.FromReading

/-! ### How operations come out -/

namespace Node

variable {α : Type} (n : Node)

theorem fromReading_reading (lock : Lock) (use : Instant → α × Registry) :
    (n.reading lock use).FromReading n lock true := by
  by_cases hread : n.clock.Readable
  · have hnow : n.clock.now? = some (Instant.ofNanos n.clock.nanos) :=
      Clock.now?_eq_some_iff.2 ⟨hread, rfl⟩
    refine .read (use (Instant.ofNanos n.clock.nanos)).1 hread ?_ (clock_reading n use) ?_
    · rw [result_reading, hnow]
      rfl
    · rw [n.reading_of_now? use hnow]
      rfl
  · have hnow : n.clock.now? = none := Clock.now?_eq_none_iff.2 hread
    refine .broken hread ?_ ?_
    · rw [result_reading, hnow]
      rfl
    · rw [reading, hnow]

/-- Only a tracked peer is worth a look at the clock. -/
theorem fromReading_touch (id : String) :
    (n.touch id).FromReading n .held (n.registry.contains id) := by
  rw [touch_eq, Registry.contains]
  rcases n.registry.get? id with - | s
  · exact .unread false rfl rfl rfl
  · exact n.fromReading_reading .held _

theorem fromReading_run (c : Command) :
    (c.run n).FromReading n c.lock (c.readsClock n.registry) := by
  cases c with
  | upsert id content => exact (n.fromReading_reading .held _).retold (fun _ => Reply.ok) rfl rfl
  | touch id => exact (n.fromReading_touch id).map _
  | remove id =>
    have hremove : (n.remove id).FromReading n .free false := .unread (n.peers.get? id) rfl rfl rfl
    exact hremove.map _
  | get id =>
    rw [run_get_eq]
    rcases n.registry.get? id with - | s
    · exact .unread (.unknownPeer id) rfl rfl rfl
    · exact .unread (.sighting s) rfl rfl rfl
  | list => exact .unread (.listing n.peers) rfl rfl rfl
  | prune maxAge => exact ((n.fromReading_reading .free _).logging _).map _

theorem fromReading_respond (text : String) :
    (n.respond text).FromReading n (Action.line text).lock
      ((Action.line text).readsClock n.registry) := by
  rw [respond, Action.readsClock, Action.lock, Action.command?]
  rcases Command.parse text with e | - | c
  · exact .unread (some (.rejected e)) rfl rfl rfl
  · exact .unread none rfl rfl rfl
  · exact (n.fromReading_run c).map some

end Node

namespace Session

variable (s : Session) {a : Action}

/-- An action that is not itself about the clock takes one reading of it, or none. -/
theorem fromReading_outcome (ha : a.LeavesClock) :
    (s.outcome a).FromReading s.node a.lock (a.readsClock s.node.registry) := by
  cases a with
  | setClock t => exact ha.elim
  | advance d => exact ha.elim
  | upsert id content => exact (s.node.fromReading_reading .held _).map _
  | touch id => exact (s.node.fromReading_touch id).map _
  | sweep maxAge => exact ((s.node.fromReading_reading .free _).logging _).map _
  | line text => exact (s.node.fromReading_respond text).map _
  | command c => exact (s.node.fromReading_run c).map _
  | remove _ | get _ | contains _ | size | isEmpty | snapshot | hold | held | prune _ =>
    exact .unread _ rfl rfl rfl

theorem error_iff (a : Action) :
    (∃ f, (s.perform a).1.answer = .error f) ↔
      a.readsClock s.node.registry = true ∧ ¬ s.node.clock.Readable := by
  by_cases ha : a.LeavesClock
  · exact (s.fromReading_outcome ha).error_iff
  · -- the clock is set or moved, which always succeeds
    obtain ⟨t, rfl⟩ | ⟨d, rfl⟩ := Action.eq_of_not_leavesClock ha
    · simp [perform, outcome, Action.readsClock, Action.command?]
    · simp [perform, outcome, Action.readsClock, Action.command?]

/-- The lock is poisoned after an action if it was before, or if the action has broken off while
holding it. -/
theorem poisoned_perform_iff (a : Action) :
    (s.perform a).2.node.poisoned = true ↔
      s.node.poisoned = true ∨ a.lock = .held ∧ ∃ f, (s.perform a).1.answer = .error f := by
  by_cases ha : a.LeavesClock
  · exact (s.fromReading_outcome ha).poisoned_iff
  · obtain ⟨t, rfl⟩ | ⟨d, rfl⟩ := Action.eq_of_not_leavesClock ha
    · simp [perform, outcome, Action.lock, Action.command?]
    · simp [perform, outcome, Action.lock, Action.command?]

/-- An action that breaks off has moved the clock by one step, and has poisoned the lock if it held
it.  It has done nothing else. -/
theorem perform_of_error {f : Fault} (hf : (s.perform a).1.answer = .error f) :
    f = .clockUnreadable ∧
      (s.perform a).2 = (s.perform (.advance s.node.clock.step)).2.brokenOff a.lock := by
  have hreads := ((s.error_iff a).1 ⟨f, hf⟩).1
  have hleaves : a.LeavesClock := by
    by_contra ha
    rw [Action.readsClock_of_not_leavesClock ha] at hreads
    exact Bool.false_ne_true hreads
  have hhold : a ≠ .hold := by
    rintro rfl
    simp [Action.readsClock, Action.command?] at hreads
  obtain ⟨hfault, hnode⟩ := (s.fromReading_outcome hleaves).of_error hf
  refine ⟨hfault, ?_⟩
  simp only [perform, if_neg hhold, hnode]
  rfl

end Session

/-- **An operation that breaks off leaves no trace.**  An action breaks off exactly if it looks at
the clock and the clock cannot be read; it moves the clock by one step exactly if it looks at it.
After one that has broken off the peers are those of before, and however the session goes on, each
step is the same as if the clock had just been moved by one step instead.  So is the session itself,
but for the lock: it is poisoned if the action has held it. -/
theorem break_off_leaves_no_trace (s : Session) (a : Action) :
    ((∃ f, (s.perform a).1.answer = .error f) ↔
        a.readsClock s.node.registry = true ∧ ¬ s.node.clock.Readable) ∧
      (a.LeavesClock → (s.perform a).2.node.clock =
        if a.readsClock s.node.registry then s.node.clock.tick else s.node.clock) ∧
      ∀ f, (s.perform a).1.answer = .error f →
        f = .clockUnreadable ∧
          (s.perform a).2.node.registry = s.node.registry ∧
          (s.perform a).1.size = s.node.registry.size ∧
          ∀ rest,
            (s.run (a :: rest)).1.tail = (s.run (.advance s.node.clock.step :: rest)).1.tail ∧
              (s.run (a :: rest)).2 =
                (s.run (.advance s.node.clock.step :: rest)).2.brokenOff a.lock := by
  refine ⟨s.error_iff a, ?_, ?_⟩
  · intro ha
    exact (s.fromReading_outcome ha).clock_eq
  · intro f hf
    obtain ⟨hfault, hnext⟩ := s.perform_of_error hf
    have hregistry : (s.perform a).2.node.registry = s.node.registry := by
      rw [hnext]
      rfl
    refine ⟨hfault, hregistry, congrArg Registry.size hregistry, ?_⟩
    intro rest
    -- the actions behind it take the lock as they find it
    simp only [Session.run, List.tail_cons, hnext, Session.run_brokenOff, and_self]

end Presence
