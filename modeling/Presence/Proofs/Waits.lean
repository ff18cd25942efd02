/-
Presence/Proofs/Waits.lean

Waiting on a feed again and again.

The waits on a feed are numbered from zero.  What is left of the feed after `k` of
them is `f.left k`; the wait number `k` then takes the events `f.takenAt k` and
ends with `f.wakeAt k`.  Of one wait three things can be said (`Takes`):

    events    those taken and those left are, one behind the other, those that were there;
    items     it ends with the item among those taken, if there is one;
    order     it is in force afterwards if it was before, or if it was given on the way.

The waits put the events together again, so that no item is lost or repeated.  Two
states of a feed are final: when the order to stop is in force, and when no event
is left.  A wait in such a state leaves the feed as it is (`next_of_cancelled`,
`next_of_nil`), and all later waits end as this one does.

Main result: `waits_neither_lose_nor_repeat`.
-/
import Presence.Feed

namespace Presence

/-- The item that a wait ends with, if it ends with one. -/
def Wake.item? {α : Type} : Wake α → Option α
  | item a => some a
  | ended | stopped => none

namespace Event

variable {ε α : Type}

/-- The item that an event delivers, if it delivers one. -/
def item? : Event ε α → Option α
  | item a => some a
  | aside _ | cancel | hang => none

/-- The order to stop is given with the event. -/
def stops : Event ε α → Bool
  | cancel | hang => true
  | item _ | aside _ => false

end Event

namespace Feed

variable {ε α : Type}

/-! ### One wait -/

/-- A wait as it is seen from outside: the events `now` are taken from the feed. -/
structure Takes (f : Feed ε α) (now : List (Event ε α)) (w : Woken ε α) : Prop where
  /-- What is left comes behind what is taken. -/
  events_eq : f.events = now ++ w.feed.events
  /-- The wait ends with the only item taken, or no item is taken. -/
  items_eq : now.filterMap Event.item? = w.wake.item?.toList
  /-- The order is in force if it was, or if it is among the events taken. -/
  cancelled_eq : w.feed.cancelled = (f.cancelled || now.any Event.stops)
  /-- A wait that is stopped leaves the order in force. -/
  cancelled_of_stopped : w.wake = .stopped → w.feed.cancelled = true
  /-- The feed has ended when there is nothing left. -/
  events_of_ended : w.wake = .ended → w.feed.events = []

namespace Takes

variable {cancelled : Bool} {l now : List (Event ε α)} {w : Woken ε α}

theorem cons_aside (h : Takes ⟨l, cancelled⟩ now w) (e : ε) :
    Takes ⟨.aside e :: l, cancelled⟩ (.aside e :: now) { w with asides := e :: w.asides } where
  events_eq := congrArg (_ :: ·) h.events_eq
  items_eq := h.items_eq
  cancelled_eq := h.cancelled_eq
  cancelled_of_stopped := h.cancelled_of_stopped
  events_of_ended := h.events_of_ended

theorem cons_cancel (h : Takes ⟨l, true⟩ now w) :
    Takes ⟨.cancel :: l, cancelled⟩ (.cancel :: now) w where
  events_eq := congrArg (_ :: ·) h.events_eq
  items_eq := h.items_eq
  cancelled_eq := by
    rw [h.cancelled_eq, Bool.true_or]
    exact (Bool.or_true cancelled).symm
  cancelled_of_stopped := h.cancelled_of_stopped
  events_of_ended := h.events_of_ended

end Takes

theorem exists_takes_take (cancelled : Bool) (l : List (Event ε α)) :
    ∃ now, Takes ⟨l, cancelled⟩ now (take cancelled l) := by
  -- along the events: an item or a hang ends the wait, the others are passed
  induction l generalizing cancelled with
  | nil => exact ⟨[], rfl, rfl, (Bool.or_false cancelled).symm, nofun, fun _ => rfl⟩
  | cons e rest ih =>
    cases e with
    | item a => exact ⟨[.item a], rfl, rfl, (Bool.or_false cancelled).symm, nofun, nofun⟩
    | aside e =>
      obtain ⟨now, h⟩ := ih cancelled
      exact ⟨_, h.cons_aside e⟩
    | cancel =>
      obtain ⟨now, h⟩ := ih true
      exact ⟨_, h.cons_cancel⟩
    | hang => exact ⟨[.hang], rfl, rfl, (Bool.or_true cancelled).symm, fun _ => rfl, nofun⟩

/-- Once the order is in force, a wait ends at once. -/
theorem next_of_cancelled {f : Feed ε α} (h : f.cancelled = true) : f.next = ⟨.stopped, [], f⟩ :=
  if_pos h

theorem exists_takes_next (f : Feed ε α) : ∃ now, f.Takes now f.next := by
  obtain ⟨events, cancelled⟩ := f
  cases cancelled with
  | false => exact exists_takes_take false events
  | true => exact ⟨[], rfl, rfl, rfl, fun _ => rfl, nofun⟩

/-- The events that a wait takes: those in front of what it leaves. -/
def taken (f : Feed ε α) : List (Event ε α) :=
  f.events.take (f.events.length - f.next.feed.events.length)

theorem takes_next (f : Feed ε α) : f.Takes f.taken f.next := by
  obtain ⟨now, h⟩ := f.exists_takes_next
  have htaken : f.taken = now := by
    rw [taken, h.events_eq, List.length_append, Nat.add_sub_cancel, List.take_left]
  rwa [htaken]

/-- Where there is nothing left, a wait changes nothing. -/
theorem next_of_nil {f : Feed ε α} (h : f.events = []) :
    f.next.feed = f ∧ f.next.wake = if f.cancelled then .stopped else .ended := by
  obtain ⟨events, cancelled⟩ := f
  obtain rfl : events = [] := h
  cases cancelled <;> exact ⟨rfl, rfl⟩

/-! ### One wait after the other -/

variable (f : Feed ε α)

/-- What is left after a number of waits. -/
def left (k : Nat) : Feed ε α := (f.waits k).2

/-- What the wait with this number ends with. -/
def wakeAt (k : Nat) : Wake α := (f.left k).next.wake

/-- The events that the wait with this number takes. -/
def takenAt (k : Nat) : List (Event ε α) := (f.left k).taken

theorem waits_succ (k : Nat) :
    f.waits (k + 1) = ((f.waits k).1 ++ [f.wakeAt k], (f.left k).next.feed) := by
  induction k generalizing f with
  | zero => rfl
  | succ k ih =>
    rw [waits, ih]
    rfl

theorem left_succ (k : Nat) : f.left (k + 1) = (f.left k).next.feed := by
  rw [left, waits_succ]

theorem takes_left (k : Nat) : (f.left k).Takes (f.takenAt k) (f.left k).next :=
  (f.left k).takes_next

theorem wakes_eq (times : Nat) : (f.waits times).1 = (List.range times).map f.wakeAt := by
  induction times with
  | zero => rfl
  | succ k ih => rw [waits_succ, ih, List.range_succ, List.map_append, List.map_singleton]

/-- The events are those taken by the first waits, wait by wait, and those left by them. -/
theorem events_eq (times : Nat) :
    f.events = (List.range times).flatMap f.takenAt ++ (f.left times).events := by
  induction times with
  | zero => rfl
  | succ k ih =>
    rw [ih, (f.takes_left k).events_eq, left_succ, List.range_succ, List.flatMap_append,
      List.flatMap_singleton, List.append_assoc]

/-- The items that the waits end with are the items taken. -/
theorem items_eq (times : Nat) :
    (f.waits times).1.filterMap Wake.item? =
      ((List.range times).flatMap f.takenAt).filterMap Event.item? := by
  induction times with
  | zero => rfl
  | succ k ih =>
    rw [waits_succ, List.filterMap_append, ih, List.range_succ, List.flatMap_append,
      List.flatMap_singleton, List.filterMap_append, (f.takes_left k).items_eq]
    show _ ++ [(f.left k).next.wake].filterMap Wake.item? = _
    rcases (f.left k).next.wake with a | - | - <;> rfl

/-- The order is in force if it was at first, or if one of the waits so far has met it. -/
theorem cancelled_left_iff (k : Nat) :
    (f.left k).cancelled = true ↔
      f.cancelled = true ∨ ∃ i < k, ∃ e ∈ f.takenAt i, e.stops = true := by
  induction k with
  | zero => simp [left, waits]
  | succ k ih =>
    rw [left_succ, (f.takes_left k).cancelled_eq, Bool.or_eq_true, ih, List.any_eq_true, or_assoc,
      Nat.exists_lt_succ_right]

variable {f}

/-- A feed that a wait leaves as it is stays so. -/
theorem left_of_next_eq {k : Nat} (h : (f.left k).next.feed = f.left k) {j : Nat} (hj : k ≤ j) :
    f.left j = f.left k := by
  induction hj with
  | refl => rfl
  | step _ ih => rw [left_succ, ih, h]

/-- The order to stop stays in force. -/
theorem stopped_of_cancelled {k : Nat} (h : (f.left k).cancelled = true) {j : Nat} (hj : k ≤ j) :
    f.wakeAt j = .stopped ∧ f.takenAt j = [] := by
  have hnext := next_of_cancelled h
  have hleft : f.left j = f.left k := left_of_next_eq (by rw [hnext]) hj
  refine ⟨?_, ?_⟩
  · rw [wakeAt, hleft, hnext]
  · rw [takenAt, hleft, taken, hnext, Nat.sub_self, List.take_zero]

theorem wakeAt_of_nil {k : Nat} (h : (f.left k).events = []) {j : Nat} (hj : k ≤ j) :
    f.wakeAt j = if (f.left k).cancelled then .stopped else .ended := by
  obtain ⟨hnext, hwake⟩ := next_of_nil h
  rw [wakeAt, left_of_next_eq hnext hj, hwake]

end Feed

/-- **Waits neither lose nor repeat an item, and the order to stop stays in force.**  The events
taken by any number of waits, wait by wait, and then those left are the events of the feed, and the
waits end with the items among those taken.  Once the order is in force, be it from the first or
because an earlier wait has met it, a wait is stopped and takes nothing; so is every wait after one
that was stopped.  The feed has ended only when nothing is left, and all later waits find it so,
unless they are stopped. -/
theorem waits_neither_lose_nor_repeat {ε α : Type} (f : Feed ε α) :
    (∀ times,
      let wakes := (f.waits times).1
      let taken := (List.range times).flatMap f.takenAt
      wakes = (List.range times).map f.wakeAt ∧
        f.events = taken ++ (f.waits times).2.events ∧
        wakes.filterMap Wake.item? = taken.filterMap Event.item?) ∧
      (∀ k, (f.cancelled = true ∨ ∃ i < k, ∃ e ∈ f.takenAt i, e.stops = true) →
        f.wakeAt k = .stopped ∧ f.takenAt k = []) ∧
      (∀ k, f.wakeAt k = .stopped → ∀ j > k, f.wakeAt j = .stopped ∧ f.takenAt j = []) ∧
      ∀ k, f.wakeAt k = .ended →
        (f.left (k + 1)).events = [] ∧
          ∀ j > k, f.wakeAt j = if (f.left (k + 1)).cancelled then .stopped else .ended := by
  refine ⟨fun times => ⟨f.wakes_eq times, f.events_eq times, f.items_eq times⟩, ?_, ?_, ?_⟩
  · intro k h
    exact Feed.stopped_of_cancelled ((f.cancelled_left_iff k).2 h) (Nat.le_refl k)
  · intro k h j hj
    have hcancelled : (f.left (k + 1)).cancelled = true := by
      rw [f.left_succ]
      exact (f.takes_left k).cancelled_of_stopped h
    exact Feed.stopped_of_cancelled hcancelled hj
  · intro k h
    have hnil : (f.left (k + 1)).events = [] := by
      rw [f.left_succ]
      exact (f.takes_left k).events_of_ended h
    exact ⟨hnil, fun j hj => Feed.wakeAt_of_nil hnil hj⟩

/-- The item behind an order to stop is still delivered, the next one is not taken any more. -/
example : (⟨[.item 1, .cancel, .item 2, .item 3], false⟩ : Feed Unit Nat).waits 4 =
    ([.item 1, .item 2, .stopped, .stopped], ⟨[.item 3], true⟩) := rfl

end Presence
