/-
Presence/Feed.lean

Waiting for the next item of a feed, or for the order to stop.

A `Feed` is what a source will deliver, as a list of events: items, asides that
come with them (such as a change of the clock), the order to stop, or a source
that hangs until it is told to stop.  `next` waits once.  The order to stop is
looked at first and stays in force: once it has been given, every wait answers
`stopped` and takes no event.  Otherwise events are taken up to the first item;
an order that is met on the way counts from the next wait on, so that the item
behind it is still delivered.
-/

namespace Presence

/-- What a source does. -/
inductive Event (ε α : Type) where
  /-- Delivers an item. -/
  | item (a : α)
  /-- Notes something and goes on. -/
  | aside (e : ε)
  /-- Gives the order to stop and goes on. -/
  | cancel
  /-- Delivers nothing until it is told to stop, which then happens. -/
  | hang
  deriving DecidableEq, Repr

/-- What a wait ends with. -/
inductive Wake (α : Type) where
  /-- An item has come. -/
  | item (a : α)
  /-- There will be no more items. -/
  | ended
  /-- The order to stop is in force. -/
  | stopped
  deriving DecidableEq, Repr

/-- Events to come, and whether the order to stop has been given. -/
structure Feed (ε α : Type) where
  /-- The events not yet taken. -/
  events : List (Event ε α)
  /-- The order to stop has been given. -/
  cancelled : Bool
  deriving DecidableEq, Repr

/-- What a wait gives. -/
structure Woken (ε α : Type) where
  /-- What the wait ended with. -/
  wake : Wake α
  /-- The asides met on the way, in order. -/
  asides : List ε
  /-- What is left of the feed. -/
  feed : Feed ε α

namespace Feed

variable {ε α : Type}

/-- Takes events up to the first item. -/
def take (cancelled : Bool) : List (Event ε α) → Woken ε α
  | [] => ⟨.ended, [], ⟨[], cancelled⟩⟩
  | .item a :: rest => ⟨.item a, [], ⟨rest, cancelled⟩⟩
  | .aside e :: rest =>
    let w := take cancelled rest
    { w with asides := e :: w.asides }
  | .cancel :: rest => take true rest
  | .hang :: rest => ⟨.stopped, [], ⟨rest, true⟩⟩

/-- Waits for the next item or the order to stop, the order being looked at first. -/
def next (f : Feed ε α) : Woken ε α :=
  if f.cancelled then ⟨.stopped, [], f⟩ else take false f.events

/-- Waits a number of times; gives what each wait ended with. -/
def waits : (times : Nat) → Feed ε α → List (Wake α) × Feed ε α
  | 0, f => ([], f)
  | times + 1, f =>
    let w := f.next
    let (wakes, last) := waits times w.feed
    (w.wake :: wakes, last)

/-! ### Every item uses up an event -/

theorem length_take_lt {cancelled : Bool} {l : List (Event ε α)} {a : α}
    (h : (take cancelled l).wake = .item a) :
    (take cancelled l).feed.events.length < l.length := by
  induction l generalizing cancelled with
  | nil => simp [take] at h
  | cons e rest ih =>
    cases e with
    | item b => simp [take]
    | aside e => simpa [take] using Nat.lt_succ_of_lt (ih h)
    | cancel => simpa [take] using Nat.lt_succ_of_lt (ih h)
    | hang => simp [take] at h

theorem length_next_lt {f : Feed ε α} {a : α} (h : f.next.wake = .item a) :
    f.next.feed.events.length < f.events.length := by
  unfold next at h ⊢
  split at h
  · simp at h
  · next hc => rw [if_neg hc]; exact length_take_lt h

end Feed

end Presence
