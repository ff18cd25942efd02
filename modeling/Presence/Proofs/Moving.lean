/-
Presence/Proofs/Moving.lean

Operations on a node whose times have been moved.

To move a node by `d` nanoseconds is to move all sightings, and what the clock
shows, by `d`.  An operation commutes with this,

    move                         operate
    node  ───────►  moved node  ───────►  moved outcome
    node  ───────►  outcome     ───────►  moved outcome
          operate                move

Operations that do not look at times do so anyway.  Those that stamp a time do so
because a clock that is moved shows the time moved (`Clock.Movable.exists_now?`).
Those that compare times do so because moving keeps the order of instants
(`Instant.moved_lt_moved_iff`), and because a saturated cutoff lies before all
instants that there are: whether somebody lies before the cutoff of an age depends
on a difference alone (`moved_lt_cutoffBefore_iff`).

The upshot is `Node.run_moved`, for commands.
-/
import Presence.Proofs.BreakOff
import Presence.Proofs.TrackedIds

namespace Presence

/-! ### Instants -/

namespace Instant

/-- An instant moved by a number of nanoseconds.  One inside a leap second has a place only behind
the second that it belongs to: it goes with this second where it is moved by whole seconds, and
otherwise, by convention, to where the end of its leap second is moved. -/
def moved (d : Int) (t : Instant) : Instant :=
  if t.nano < nanosPerSecond then ofNanos (t.toNanos + d)
  else if (nanosPerSecond : Int) ∣ d then { t with sec := t.sec + d / nanosPerSecond }
  else ofNanos ((t.sec + 1) * nanosPerSecond + d)

variable {d : Int} {s t : Instant}

theorem moved_of_ordinary (h : t.Ordinary) : t.moved d = ofNanos (t.toNanos + d) := if_pos h

theorem toNanos_moved (h : t.Ordinary) : (t.moved d).toNanos = t.toNanos + d := by
  rw [moved_of_ordinary h, toNanos_ofNanos]

/-- Moving keeps the order of an ordinary instant and any other. -/
theorem moved_lt_moved_iff (hs : s.Ordinary) : s.moved d < t.moved d ↔ s < t := by
  rw [moved_of_ordinary hs]
  simp only [Ordinary, nanosPerSecond] at hs
  unfold moved
  split
  · next ht =>
    rw [← toNanos_lt_toNanos (ofNanos_ordinary _) (ofNanos_ordinary _), toNanos_ofNanos,
      toNanos_ofNanos, ← toNanos_lt_toNanos hs ht]
    omega
  · -- before an instant inside a leap second lies what is not after the second
    next ht =>
    have hbefore : s < t ↔ s.toNanos < (t.sec + 1) * 1000000000 := by
      simp only [lt_iff, toNanos, nanosPerSecond] at ht ⊢
      omega
    split
    · next hd =>
      obtain ⟨k, rfl⟩ := hd
      rw [hbefore]
      simp only [lt_iff, ofNanos, nanosPerSecond] at ht ⊢
      omega
    · rw [← toNanos_lt_toNanos (ofNanos_ordinary _) (ofNanos_ordinary _), toNanos_ofNanos,
        toNanos_ofNanos, hbefore]
      simp only [nanosPerSecond]
      omega

end Instant

/-- **Saturation is never seen**: who lies before the cutoff of an age does so after a move. -/
theorem moved_lt_cutoffBefore_iff {d : Int} {now t : Instant} {age : Age} (hnow : now.InRange)
    (hnow' : (now.moved d).InRange) (ht : t.InRange) (ht' : (t.moved d).InRange)
    (hage : age.Ordinary) :
    t.moved d < cutoffBefore (now.moved d) age ↔ t < cutoffBefore now age := by
  rw [lt_cutoffBefore_iff hnow' ht' hage, lt_cutoffBefore_iff hnow ht hage,
    Instant.toNanos_moved hnow.ordinary, Instant.toNanos_moved ht.ordinary]
  omega

/-! ### Registries -/

/-- A sighting moved by a number of nanoseconds. -/
def Sighting.moved (d : Int) (x : Sighting) : Sighting := { x with lastSeen := x.lastSeen.moved d }

namespace Registry

theorem ascending_moved (d : Int) {l : List (String × Sighting)} (h : Ascending l) :
    Ascending (l.map fun e => (e.1, e.2.moved d)) := by
  rw [Ascending, List.pairwise_map]
  exact h

/-- The registry with all sightings moved by a number of nanoseconds. -/
def moved (d : Int) (r : Registry) : Registry :=
  ⟨r.entries.map fun e => (e.1, e.2.moved d), ascending_moved d r.ascending⟩

variable (d : Int) (r : Registry)

theorem get?_moved (id : String) : (r.moved d).get? id = (r.get? id).map (Sighting.moved d) := by
  show find? id (r.entries.map _) = (find? id r.entries).map _
  induction r.entries with
  | nil => rfl
  | cons e rest ih =>
    simp only [List.map_cons, find?]
    split
    · rfl
    · exact ih

@[simp] theorem contains_moved (id : String) : (r.moved d).contains id = r.contains id := by
  rw [contains, get?_moved, Option.isSome_map, contains]

@[simp] theorem size_moved : (r.moved d).size = r.size := List.length_map ..

@[simp] theorem isEmpty_moved : (r.moved d).isEmpty = r.isEmpty := by
  simp [isEmpty, moved]

@[simp] theorem ids_moved : (r.moved d).ids = r.ids := by
  simp [ids, moved]

theorem insert_moved (id : String) (x : Sighting) :
    (r.moved d).insert id (x.moved d) = (r.insert id x).moved d := by
  apply ext_get?
  intro key
  rw [get?_insert, get?_moved, get?_moved, get?_insert]
  split
  · rfl
  · rfl

/-- Who passes a test after a move is who passes one before it. -/
theorem filter_moved {keep keep' : String → Sighting → Bool}
    (h : ∀ id x, r.get? id = some x → keep' id (x.moved d) = keep id x) :
    (r.moved d).filter keep' = (r.filter keep).moved d := by
  apply ext
  show (r.entries.map _).filter _ = (r.entries.filter _).map _
  rw [List.filter_map]
  congr 1
  refine List.filter_congr ?_
  intro e he
  exact h e.1 e.2 (r.mem_entries_iff.1 he)

theorem erase_moved (id : String) : (r.moved d).erase id = (r.erase id).moved d :=
  r.filter_moved d fun _ _ _ => rfl

section

variable {r} {cutoff cutoff' : Instant}
  (h : ∀ id x, r.get? id = some x → (x.lastSeen.moved d < cutoff' ↔ x.lastSeen < cutoff))

include h

theorem prune_moved : (r.moved d).prune cutoff' = (r.prune cutoff).moved d := by
  refine r.filter_moved d ?_
  intro id x hx
  exact decide_eq_decide.2 (not_congr (h id x hx))

theorem stale_moved : (r.moved d).stale cutoff' = r.stale cutoff := by
  have hfilter : (r.moved d).filter (fun _ x => x.lastSeen < cutoff') =
      (r.filter fun _ x => x.lastSeen < cutoff).moved d := by
    refine r.filter_moved d ?_
    intro id x hx
    exact decide_eq_decide.2 (h id x hx)
  rw [stale, hfilter, ids_moved, stale]

end

/-- All sightings can be represented, before a move and after it. -/
def Movable : Prop :=
  ∀ id x, r.get? id = some x → x.lastSeen.InRange ∧ (x.lastSeen.moved d).InRange

end Registry

/-! ### Nodes -/

/-- A node moved by a number of nanoseconds: its sightings, and what its clock shows. -/
def Node.moved (d : Int) (n : Node) : Node :=
  { n with registry := n.registry.moved d, clock := n.clock.advance d }

/-- An outcome on a node that is moved, with a result that is moved. -/
def Outcome.moved {α : Type} (d : Int) (move : α → α) (o : Outcome α) : Outcome α :=
  ⟨o.result.map move, o.node.moved d, o.log⟩

/-- What a reply shows of peers is moved. -/
def Reply.moved (d : Int) : Reply → Reply
  | sighting x => sighting (x.moved d)
  | listing r => listing (r.moved d)
  | ok => ok
  | unknownPeer id => unknownPeer id
  | pruned ids => pruned ids
  | rejected e => rejected e

namespace Clock

variable (c : Clock) (d e : Int)

theorem tick_advance : (c.advance d).tick = c.tick.advance d := by
  simp only [tick, advance, Int.add_right_comm]

theorem advance_advance : (c.advance d).advance e = (c.advance e).advance d := by
  simp only [advance, Int.add_right_comm]

/-- The clock can be read, before a move and after it. -/
def Movable : Prop := c.Readable ∧ (c.advance d).Readable

variable {c d}

/-- A clock that is moved shows the time moved. -/
theorem Movable.exists_now? (h : c.Movable d) :
    ∃ now, c.now? = some now ∧ (c.advance d).now? = some (now.moved d) := by
  obtain ⟨h, h'⟩ := h
  refine ⟨Instant.ofNanos c.nanos, now?_eq_some_iff.2 ⟨h, rfl⟩, now?_eq_some_iff.2 ⟨h', ?_⟩⟩
  rw [Instant.moved_of_ordinary (Instant.ofNanos_ordinary _), Instant.toNanos_ofNanos]
  simp only [nanos, advance, Int.add_right_comm]

end Clock

namespace Outcome

variable {α β : Type} {d : Int} {move : α → α} (o : Outcome α)

theorem map_moved {f : α → β} {move' : β → β} (h : ∀ a, f (move a) = move' (f a)) :
    (o.moved d move).map f = (o.map f).moved d move' := by
  obtain ⟨f' | a, n, log⟩ := o
  · rfl
  · show (⟨.ok (f (move a)), n.moved d, log⟩ : Outcome β) = ⟨.ok (move' (f a)), n.moved d, log⟩
    rw [h]

theorem logging_moved {notices notices' : α → List Notice} (h : ∀ a, notices' (move a) = notices a) :
    (o.moved d move).logging notices' = (o.logging notices).moved d move := by
  obtain ⟨f' | a, n, log⟩ := o
  · rfl
  · show (⟨_, _, log ++ notices' (move a)⟩ : Outcome α) = ⟨_, _, log ++ notices a⟩
    rw [h]
    rfl

end Outcome

namespace Node

theorem peers_moved (d : Int) (n : Node) : (n.moved d).peers = n.peers.moved d := by
  rw [peers_eq, peers_eq]
  rfl

variable {α : Type} {d : Int} {n : Node} {now : Instant}

section

variable (hnow : n.clock.now? = some now) (hnow' : (n.clock.advance d).now? = some (now.moved d))

include hnow hnow'

/-- A reading commutes with a move if what is done with it does. -/
theorem reading_moved {lock : Lock} {use use' : Instant → α × Registry} {move : α → α}
    (huse : use' (now.moved d) = (move (use now).1, (use now).2.moved d)) :
    (n.moved d).reading lock use' = (n.reading lock use).moved d move := by
  rw [n.reading_of_now? use hnow, (n.moved d).reading_of_now? use' hnow', huse]
  show (⟨_, ⟨_, (n.clock.advance d).tick, _⟩, _⟩ : Outcome α) =
    ⟨_, ⟨_, n.clock.tick.advance d, _⟩, _⟩
  rw [Clock.tick_advance]
  rfl

theorem upsert_moved (id content : String) :
    (n.moved d).upsert id content = (n.upsert id content).moved d fun u => u := by
  rw [upsert_eq, upsert_eq]
  exact reading_moved hnow hnow' (Prod.ext rfl (n.registry.insert_moved d id ⟨content, now⟩))

theorem dropOlderThan_moved (hmovable : n.registry.Movable d) {maxAge : Age}
    (hage : maxAge.Ordinary) :
    (n.moved d).dropOlderThan maxAge = (n.dropOlderThan maxAge).moved d fun ids => ids := by
  -- the cutoffs need not lie `d` apart, as only one of them may be saturated
  have hcutoff : ∀ id x, n.registry.get? id = some x →
      (x.lastSeen.moved d < cutoffBefore (now.moved d) maxAge ↔
        x.lastSeen < cutoffBefore now maxAge) := by
    intro id x hx
    obtain ⟨hrange, hrange'⟩ := hmovable id x hx
    exact moved_lt_cutoffBefore_iff (Clock.inRange_of_now? hnow).1 (Clock.inRange_of_now? hnow').1
      hrange hrange' hage
  rw [dropOlderThan_eq, dropOlderThan_eq]
  exact reading_moved hnow hnow'
    (Prod.ext (Registry.stale_moved d hcutoff) (Registry.prune_moved d hcutoff))

theorem sweep_moved (hmovable : n.registry.Movable d) {maxAge : Age} (hage : maxAge.Ordinary) :
    (n.moved d).sweep maxAge = (n.sweep maxAge).moved d fun ids => ids := by
  rw [sweep, dropOlderThan_moved hnow hnow' hmovable hage]
  refine Outcome.logging_moved _ ?_
  have hsize : ((n.dropOlderThan maxAge).moved d fun ids => ids).node.peers.size =
      (n.dropOlderThan maxAge).node.peers.size := by
    show ((n.dropOlderThan maxAge).node.moved d).peers.size = _
    rw [peers_moved, Registry.size_moved]
  intro ids
  rw [hsize]

end

theorem get?_moved (id : String) :
    (n.moved d).registry.get? id = (n.registry.get? id).map (Sighting.moved d) :=
  n.registry.get?_moved d id

theorem touch_moved {id : String} (hread : n.registry.contains id = true → n.clock.Movable d) :
    (n.moved d).touch id = (n.touch id).moved d fun known => known := by
  rw [touch_eq, touch_eq, get?_moved]
  rcases hid : n.registry.get? id with - | x
  · -- neither clock is looked at
    rfl
  · obtain ⟨now, hnow, hnow'⟩ := (hread (n.registry.contains_of_get? hid)).exists_now?
    exact reading_moved hnow hnow'
      (Prod.ext rfl (n.registry.insert_moved d id { x with lastSeen := now }))

theorem remove_moved (id : String) :
    (n.moved d).remove id = (n.remove id).moved d (Option.map (Sighting.moved d)) := by
  rw [remove_eq, remove_eq, get?_moved]
  show (⟨_, ⟨(n.registry.moved d).erase id, _, _⟩, _⟩ : Outcome (Option Sighting)) = _
  rw [Registry.erase_moved]
  rfl

theorem dropBefore_moved (hmovable : n.registry.Movable d) (cutoff : Instant) :
    (n.moved d).dropBefore (cutoff.moved d) = (n.dropBefore cutoff).moved d fun ids => ids := by
  have hcutoff : ∀ id x, n.registry.get? id = some x →
      (x.lastSeen.moved d < cutoff.moved d ↔ x.lastSeen < cutoff) := by
    intro id x hx
    exact Instant.moved_lt_moved_iff (hmovable id x hx).1.ordinary
  rw [dropBefore_eq, dropBefore_eq]
  show (⟨.ok ((n.registry.moved d).stale _), ⟨(n.registry.moved d).prune _, _, _⟩, []⟩ :
    Outcome (List String)) = _
  rw [Registry.stale_moved d hcutoff, Registry.prune_moved d hcutoff]
  rfl

end Node

/-! ### Commands and lines -/

/-- If the command prunes, the age is an ordinary one. -/
def Command.OrdinaryAge : Command → Prop
  | prune maxAge => maxAge.Ordinary
  | upsert _ _ | touch _ | remove _ | get _ | list => True

namespace Node

variable {d : Int} {n : Node} (hmovable : n.registry.Movable d)

include hmovable

theorem run_moved {c : Command} (hage : c.OrdinaryAge)
    (hread : c.readsClock n.registry = true → n.clock.Movable d) :
    c.run (n.moved d) = (c.run n).moved d (Reply.moved d) := by
  cases c with
  | upsert id content =>
    obtain ⟨now, hnow, hnow'⟩ := (hread rfl).exists_now?
    have hmap : ((n.upsert id content).moved d fun u => u).map (fun _ => Reply.ok) =
        ((n.upsert id content).map fun _ => Reply.ok).moved d (Reply.moved d) :=
      Outcome.map_moved _ fun _ => rfl
    rw [Command.run, Command.run, upsert_moved hnow hnow', hmap]
    rfl
  | touch id =>
    rw [Command.run, Command.run, touch_moved hread]
    refine Outcome.map_moved _ ?_
    intro known
    cases known <;> rfl
  | remove id =>
    rw [Command.run, Command.run, remove_moved]
    refine Outcome.map_moved _ ?_
    intro known
    cases known <;> rfl
  | get id =>
    rw [run_get_eq, run_get_eq, get?_moved]
    rcases n.registry.get? id with - | x <;> rfl
  | list =>
    rw [run_list_eq, run_list_eq]
    rfl
  | prune maxAge =>
    obtain ⟨now, hnow, hnow'⟩ := (hread rfl).exists_now?
    let notices (ids : List String) : List Notice := [.consolePruned ids.length]
    have hlogging : ((n.dropOlderThan maxAge).moved d fun ids => ids).logging notices =
        ((n.dropOlderThan maxAge).logging notices).moved d fun ids => ids :=
      Outcome.logging_moved _ fun _ => rfl
    rw [Command.run, Command.run, dropOlderThan_moved hnow hnow' hmovable hage, hlogging]
    exact Outcome.map_moved _ fun _ => rfl

end Node

end Presence
