/-
Presence/Proofs/Threads.lean

Several threads on one registry, each with peers of its own.

What the threads do reaches the registry one action after the other.  A schedule
lists these actions, each with its thread, and `lane i` picks out those of one
thread, in their order.  The actions are those on one peer (`Action.peer?`).  Such
an action looks at its peer and at the clock, and nothing but its peer is changed
by it, so long as readings do not move the clock.  It may poison the lock, but
nobody looks at that.

A thread therefore cannot tell the shared session from one of its own
(`Session.SameFor`):

    an action of its own     comes to the same in both, and they stay the same for it;
    an action of another     changes nothing that it looks at.

Main result: whatever the schedule, the shared registry is the disjoint union of
the registries that the threads have alone, and every action is answered as it is
there (`threads_do_not_interfere`).
-/
import Presence.Proofs.BreakOff
import Presence.Proofs.TrackedIds
import Mathlib.Algebra.BigOperators.Group.Finset.Basic
import Mathlib.Data.Fintype.Basic

namespace Presence

/-! ### Disjoint unions of registries -/

/-- The registry has the peers of all parts, and no two parts have one in common. -/
structure Registry.IsDisjointUnion {ι : Type} (r : Registry) (parts : ι → Registry) : Prop where
  get?_iff (id : String) (x : Sighting) : r.get? id = some x ↔ ∃ i, (parts i).get? id = some x
  disjoint (i j : ι) (id : String) :
    (parts i).contains id = true → (parts j).contains id = true → i = j

namespace Registry.IsDisjointUnion

variable {ι : Type} {r s : Registry} {parts : ι → Registry}

theorem unique (h : r.IsDisjointUnion parts) (h' : s.IsDisjointUnion parts) : r = s := by
  refine ext_get? fun id => ?_
  apply Option.ext
  intro x
  rw [h.get?_iff, h'.get?_iff]

theorem contains_iff (h : r.IsDisjointUnion parts) (id : String) :
    r.contains id = true ↔ ∃ i, (parts i).contains id = true := by
  simp only [Registry.contains_iff, h.get?_iff]
  exact exists_comm

/-- Nobody is counted twice. -/
theorem size_eq [Fintype ι] (h : r.IsDisjointUnion parts) : r.size = ∑ i, (parts i).size := by
  have htracked : r.tracked = Finset.univ.biUnion fun i => (parts i).tracked := by
    ext id
    simp [h.contains_iff]
  have hdisjoint : ((Finset.univ : Finset ι) : Set ι).PairwiseDisjoint
      fun i => (parts i).tracked := by
    intro i _ j _ hij
    refine Finset.disjoint_left.2 fun id hi hj => hij ?_
    exact h.disjoint i j id (mem_tracked _ |>.1 hi) (mem_tracked _ |>.1 hj)
  calc r.size = r.tracked.card := r.card_tracked.symm
    _ = ∑ i, (parts i).tracked.card := by rw [htracked, Finset.card_biUnion hdisjoint]
    _ = ∑ i, (parts i).size := Finset.sum_congr rfl fun i _ => (parts i).card_tracked

end Registry.IsDisjointUnion

/-! ### Actions on one peer -/

/-- The peer that an action is about, if it is an action on one peer. -/
def Action.peer? : Action → Option String
  | upsert id _ | touch id | remove id | get id | contains id => some id
  | _ => none

/-- The peers that actions are about. -/
def Action.peersOf (actions : List Action) : List String := actions.filterMap Action.peer?

namespace Action

variable {a : Action} {id key : String}

theorem leavesClock_of_peer? (h : a.peer? = some id) : a.LeavesClock := by
  cases a <;> simp_all [peer?, LeavesClock]

theorem ne_hold_of_peer? (h : a.peer? = some id) : a ≠ .hold := by
  rintro rfl
  cases h

/-- An action on one peer is no event for another. -/
theorem eventFor_of_peer? (h : a.peer? = some key) (hne : key ≠ id) (now? : Option Instant) :
    a.eventFor id now? = none := by
  cases a with
  | upsert _ _ | touch _ | remove _ =>
    obtain rfl := Option.some.inj h
    exact if_neg hne
  | get _ | contains _ => rfl
  | _ => cases h

end Action

namespace Session

variable {s t : Session} {a : Action} {id key : String}

theorem get?_perform_of_peer? (h : a.peer? = some key) (hne : key ≠ id) :
    (s.perform a).2.node.registry.get? id = s.node.registry.get? id := by
  rw [get?_perform, Action.eventFor_of_peer? h hne]
  rfl

theorem get?_perform_congr (hclock : s.node.clock = t.node.clock)
    (hget : s.node.registry.get? id = t.node.registry.get? id) (a : Action) :
    (s.perform a).2.node.registry.get? id = (t.perform a).2.node.registry.get? id := by
  rw [get?_perform, get?_perform, hclock, hget]

/-- The answer to an action on one peer hangs on what is known of this peer, and on the clock. -/
theorem answer_perform_congr (h : a.peer? = some id) (hclock : s.node.clock = t.node.clock)
    (hget : s.node.registry.get? id = t.node.registry.get? id) :
    (s.perform a).1.answer = (t.perform a).1.answer := by
  cases a with
  | upsert key content =>
    show ((s.node.upsert key content).map _).result = ((t.node.upsert key content).map _).result
    rw [Outcome.result_map, Outcome.result_map, Node.upsert_eq, Node.upsert_eq, Node.result_reading,
      Node.result_reading, hclock]
  | touch key =>
    obtain rfl := Option.some.inj h
    show ((s.node.touch key).map _).result = ((t.node.touch key).map _).result
    rw [Outcome.result_map, Outcome.result_map, Node.touch_eq, Node.touch_eq, hget]
    rcases t.node.registry.get? key with - | x
    · rfl
    · rw [Node.result_reading, Node.result_reading, hclock]
  | remove key | get key | contains key =>
    obtain rfl := Option.some.inj h
    simp only [perform, outcome, Node.remove_eq, Node.peers_eq, Outcome.result_map,
      Registry.contains, hget]
  | _ => cases h

end Session

/-! ### What one thread sees -/

/-- What belongs to a thread, in its order. -/
def lane {ι β : Type} [DecidableEq ι] (i : ι) (l : List (ι × β)) : List β :=
  (l.filter fun e => e.1 = i).map Prod.snd

section

variable {ι β : Type} [DecidableEq ι] {i : ι}

theorem lane_cons_self (b : β) (l : List (ι × β)) : lane i ((i, b) :: l) = b :: lane i l := by
  simp [lane]

theorem lane_cons_of_ne {j : ι} (h : j ≠ i) (b : β) (l : List (ι × β)) :
    lane i ((j, b) :: l) = lane i l := by
  simp [lane, h]

theorem mem_lane {b : β} {l : List (ι × β)} : b ∈ lane i l ↔ (i, b) ∈ l := by
  simp [lane]

/-- Everything belongs to some thread. -/
theorem exists_mem_lane_zip {owners : List ι} {l : List β} (h : l.length ≤ owners.length) {b : β} :
    (∃ j, b ∈ lane j (owners.zip l)) ↔ b ∈ l := by
  conv_rhs => rw [← List.map_snd_zip h, List.mem_map]
  simp [mem_lane]

end

namespace Session

/-- Two sessions are the same for someone who looks at certain ids and at the clock. -/
structure SameFor (mine : String → Prop) (s t : Session) : Prop where
  clock_eq : s.node.clock = t.node.clock
  get?_eq (id : String) : mine id → s.node.registry.get? id = t.node.registry.get? id

namespace SameFor

variable {mine : String → Prop} {s t : Session} {a : Action} {id : String}

/-- An action on an own peer comes to the same. -/
theorem own (h : s.SameFor mine t) (hsteady : s.node.clock.step = 0) (hpeer : a.peer? = some id)
    (hmine : mine id) : (s.perform a).1.answer = (t.perform a).1.answer ∧
      (s.perform a).2.SameFor mine (t.perform a).2 := by
  have hleaves := Action.leavesClock_of_peer? hpeer
  refine ⟨answer_perform_congr hpeer h.clock_eq (h.get?_eq id hmine), ?_, ?_⟩
  · rw [s.clock_perform_of_steady hsteady hleaves,
      t.clock_perform_of_steady (h.clock_eq ▸ hsteady) hleaves, h.clock_eq]
  · intro key hkey
    exact get?_perform_congr h.clock_eq (h.get?_eq key hkey) a

/-- An action on a peer of someone else is not seen. -/
theorem other (h : s.SameFor mine t) (hsteady : s.node.clock.step = 0) (hpeer : a.peer? = some id)
    (hmine : ¬ mine id) : (s.perform a).2.SameFor mine t := by
  refine ⟨?_, ?_⟩
  · rw [s.clock_perform_of_steady hsteady (Action.leavesClock_of_peer? hpeer), h.clock_eq]
  · intro key hkey
    have hne : id ≠ key := fun heq => hmine (heq ▸ hkey)
    rw [get?_perform_of_peer? hpeer hne, h.get?_eq key hkey]

/-- A thread that owns the peers of its actions, and no others, gets the answers that it would get
alone. -/
theorem run {ι : Type} [DecidableEq ι] {i : ι} {schedule : List (ι × Action)}
    (h : s.SameFor mine t) (hsteady : s.node.clock.step = 0)
    (howns : ∀ e ∈ schedule, ∃ id, e.2.peer? = some id ∧ (mine id ↔ e.1 = i)) :
    lane i ((schedule.map Prod.fst).zip
        ((s.run (schedule.map Prod.snd)).1.map Step.answer)) =
          (t.run (lane i schedule)).1.map Step.answer ∧
      (s.run (schedule.map Prod.snd)).2.SameFor mine (t.run (lane i schedule)).2 := by
  induction schedule generalizing s t with
  | nil => exact ⟨rfl, h⟩
  | cons e rest ih =>
    obtain ⟨j, a⟩ := e
    obtain ⟨⟨id, hpeer, hmine⟩, hrest⟩ := List.forall_mem_cons.1 howns
    have hsteady' : (s.perform a).2.node.clock.step = 0 := by
      rw [s.clock_perform_of_steady hsteady (Action.leavesClock_of_peer? hpeer), hsteady]
    simp only [List.map_cons, Session.run, List.zip_cons_cons]
    by_cases hj : j = i
    · -- both sessions go on
      subst hj
      obtain ⟨hanswer, hsame⟩ := h.own hsteady hpeer (hmine.2 rfl)
      obtain ⟨hanswers, hlast⟩ := ih hsame hsteady' hrest
      rw [lane_cons_self, lane_cons_self, hanswer, hanswers]
      exact ⟨rfl, hlast⟩
    · -- only the shared session goes on
      have hother := h.other hsteady hpeer (fun hid => hj (hmine.1 hid))
      rw [lane_cons_of_ne hj, lane_cons_of_ne hj]
      exact ih hother hsteady' hrest

end SameFor

/-! ### Runs of actions on one peer each -/

variable {s : Session} {actions : List Action} {id : String}

theorem get?_run_of_not_mem (hpeer : ∀ a ∈ actions, a.peer?.isSome = true)
    (hid : id ∉ Action.peersOf actions) :
    (s.run actions).2.node.registry.get? id = s.node.registry.get? id := by
  induction actions generalizing s with
  | nil => rfl
  | cons a rest ih =>
    obtain ⟨ha, hrest⟩ := List.forall_mem_cons.1 hpeer
    obtain ⟨key, hkey⟩ := Option.isSome_iff_exists.1 ha
    rw [Action.peersOf, List.filterMap_cons_some hkey, List.mem_cons, not_or] at hid
    have hstep := get?_perform_of_peer? (s := s) hkey (Ne.symm hid.1)
    exact (ih hrest hid.2).trans hstep

/-- Only the registry and the lock may have changed. -/
theorem run_of_peers (hsteady : s.node.clock.step = 0)
    (hpeer : ∀ a ∈ actions, a.peer?.isSome = true) :
    (s.run actions).2 =
      ⟨⟨(s.run actions).2.node.registry, s.node.clock, (s.run actions).2.node.poisoned⟩,
        s.held⟩ := by
  induction actions generalizing s with
  | nil => rfl
  | cons a rest ih =>
    obtain ⟨ha, hrest⟩ := List.forall_mem_cons.1 hpeer
    obtain ⟨key, hkey⟩ := Option.isSome_iff_exists.1 ha
    have hclock := s.clock_perform_of_steady hsteady (Action.leavesClock_of_peer? hkey)
    have hheld : (s.perform a).2.held = s.held := if_neg (Action.ne_hold_of_peer? hkey)
    have hlast := ih (s := (s.perform a).2) (by rw [hclock, hsteady]) hrest
    rw [hclock, hheld] at hlast
    exact hlast

theorem length_run : (s.run actions).1.length = actions.length := by
  induction actions generalizing s with
  | nil => rfl
  | cons a rest ih => exact congrArg Nat.succ ih

/-- An action on one peer holds the lock if it looks at the clock. -/
theorem poisoned_perform_iff_of_peer? (hpeer : a.peer? = some id) :
    (s.perform a).2.node.poisoned = true ↔
      s.node.poisoned = true ∨ ∃ f, (s.perform a).1.answer = .error f := by
  rw [poisoned_perform_iff]
  refine or_congr_right (and_iff_right_of_imp ?_)
  intro herror
  have hreads := ((s.error_iff a).1 herror).1
  cases a with
  | upsert _ _ | touch _ => rfl
  | remove _ | get _ | contains _ => cases hreads
  | _ => cases hpeer

/-- The answers tell whether the lock has been poisoned. -/
theorem poisoned_run_iff (hpeer : ∀ a ∈ actions, a.peer?.isSome = true) :
    (s.run actions).2.node.poisoned = true ↔
      s.node.poisoned = true ∨ ∃ f, .error f ∈ (s.run actions).1.map Step.answer := by
  induction actions generalizing s with
  | nil => simp [run]
  | cons a rest ih =>
    obtain ⟨ha, hrest⟩ := List.forall_mem_cons.1 hpeer
    obtain ⟨key, hkey⟩ := Option.isSome_iff_exists.1 ha
    simp only [run, List.map_cons, List.mem_cons, exists_or, eq_comm (b := (s.perform a).1.answer)]
    rw [ih hrest, poisoned_perform_iff_of_peer? hkey, or_assoc]

end Session

/-! ### Threads apart from each other -/

section

variable {ι : Type} {threads : ι → List Action}

/-- All actions are on one peer each, and no two threads have a peer in common. -/
structure Apart (threads : ι → List Action) : Prop where
  single (i : ι) : ∀ a ∈ threads i, a.peer?.isSome = true
  disjoint (i j : ι) (id : String) :
    id ∈ Action.peersOf (threads i) → id ∈ Action.peersOf (threads j) → i = j

/-- The schedule keeps the order of each thread, with nothing left out and nothing added. -/
def Schedules [DecidableEq ι] (schedule : List (ι × Action)) (threads : ι → List Action) : Prop :=
  ∀ i, lane i schedule = threads i

variable [DecidableEq ι] {schedule : List (ι × Action)} {clock : Clock}

namespace Apart

theorem owns (h : Apart threads) (hschedule : Schedules schedule threads) (i : ι) :
    ∀ e ∈ schedule, ∃ id, e.2.peer? = some id ∧
      (id ∈ Action.peersOf (threads i) ↔ e.1 = i) := by
  rintro ⟨j, a⟩ he
  have ha : a ∈ threads j := hschedule j ▸ mem_lane.2 he
  obtain ⟨id, hid⟩ := Option.isSome_iff_exists.1 (h.single j a ha)
  have hmem : id ∈ Action.peersOf (threads j) := List.mem_filterMap.2 ⟨a, ha, hid⟩
  refine ⟨id, hid, fun hi => h.disjoint j i id hmem hi, ?_⟩
  rintro rfl
  exact hmem

theorem single_schedule (h : Apart threads) (hschedule : Schedules schedule threads) :
    ∀ a ∈ schedule.map Prod.snd, a.peer?.isSome = true := by
  intro a ha
  obtain ⟨e, he, rfl⟩ := List.mem_map.1 ha
  exact h.single e.1 e.2 (hschedule e.1 ▸ mem_lane.2 he)

theorem exists_of_mem_peersOf (hschedule : Schedules schedule threads) {id : String}
    (hid : id ∈ Action.peersOf (schedule.map Prod.snd)) : ∃ i, id ∈ Action.peersOf (threads i) := by
  obtain ⟨a, ha, hpeer⟩ := List.mem_filterMap.1 hid
  obtain ⟨e, he, rfl⟩ := List.mem_map.1 ha
  exact ⟨e.1, List.mem_filterMap.2 ⟨e.2, hschedule e.1 ▸ mem_lane.2 he, hpeer⟩⟩

omit [DecidableEq ι] in
/-- A thread tracks none but its own peers. -/
theorem mem_peersOf (h : Apart threads) {i : ι} {id : String}
    (hid : ((Session.start clock).run (threads i)).2.node.registry.contains id = true) :
    id ∈ Action.peersOf (threads i) := by
  by_contra hnot
  -- nobody was tracked at first
  have hget := Session.get?_run_of_not_mem (s := Session.start clock) (h.single i) hnot
  obtain ⟨x, hx⟩ := (Registry.contains_iff _).1 hid
  rw [hget] at hx
  cases hx

theorem sameFor_run (h : Apart threads) (hclock : clock.step = 0)
    (hschedule : Schedules schedule threads) (i : ι) :
    let shared := (Session.start clock).run (schedule.map Prod.snd)
    let alone := (Session.start clock).run (threads i)
    lane i ((schedule.map Prod.fst).zip (shared.1.map Step.answer)) = alone.1.map Step.answer ∧
      shared.2.SameFor (· ∈ Action.peersOf (threads i)) alone.2 := by
  intro shared alone
  have hstart : (Session.start clock).SameFor (· ∈ Action.peersOf (threads i))
      (Session.start clock) := ⟨rfl, fun _ _ => rfl⟩
  have hrun := hstart.run hclock (h.owns hschedule i)
  rwa [hschedule i] at hrun

theorem isDisjointUnion_run (h : Apart threads) (hclock : clock.step = 0)
    (hschedule : Schedules schedule threads) :
    ((Session.start clock).run (schedule.map Prod.snd)).2.node.registry.IsDisjointUnion
      fun i => ((Session.start clock).run (threads i)).2.node.registry where
  get?_iff id x := by
    constructor
    · intro hx
      -- whoever is tracked is a peer of some thread, and this thread sees it
      have hpeers : id ∈ Action.peersOf (schedule.map Prod.snd) := by
        by_contra hnot
        rw [Session.get?_run_of_not_mem (h.single_schedule hschedule) hnot] at hx
        cases hx
      obtain ⟨i, hi⟩ := exists_of_mem_peersOf hschedule hpeers
      exact ⟨i, ((h.sameFor_run hclock hschedule i).2.get?_eq id hi).symm.trans hx⟩
    · rintro ⟨i, hx⟩
      have hi := h.mem_peersOf (Registry.contains_of_get? _ hx)
      exact ((h.sameFor_run hclock hschedule i).2.get?_eq id hi).trans hx
  disjoint i j id hi hj := h.disjoint i j id (h.mem_peersOf hi) (h.mem_peersOf hj)

/-- The shared lock is poisoned by the threads that poison a lock of their own. -/
theorem poisoned_run_iff (h : Apart threads) (hclock : clock.step = 0)
    (hschedule : Schedules schedule threads) :
    ((Session.start clock).run (schedule.map Prod.snd)).2.node.poisoned = true ↔
      ∃ i, ((Session.start clock).run (threads i)).2.node.poisoned = true := by
  have hfresh : (Session.start clock).node.poisoned = false := rfl
  have halone (i : ι) := (h.sameFor_run hclock hschedule i).1
  simp only [Session.poisoned_run_iff (h.single_schedule hschedule),
    Session.poisoned_run_iff (h.single _), hfresh, Bool.false_eq_true, false_or,
    ← halone]
  -- an answer of the shared session is one that some thread gets alone
  rw [exists_comm]
  refine exists_congr fun f => (exists_mem_lane_zip ?_).symm
  simp [Session.length_run]

/-- The threads leave the session that they leave in any other order. -/
theorem run_eq (h : Apart threads) (hclock : clock.step = 0)
    (hschedule : Schedules schedule threads) {other : List (ι × Action)}
    (hother : Schedules other threads) :
    ((Session.start clock).run (other.map Prod.snd)).2 =
      ((Session.start clock).run (schedule.map Prod.snd)).2 := by
  have hregistry := (h.isDisjointUnion_run hclock hother).unique
    (h.isDisjointUnion_run hclock hschedule)
  have hlock := Bool.eq_iff_iff.2
    ((h.poisoned_run_iff hclock hother).trans (h.poisoned_run_iff hclock hschedule).symm)
  rw [Session.run_of_peers hclock (h.single_schedule hschedule),
    Session.run_of_peers hclock (h.single_schedule hother), hregistry, hlock]

end Apart

end

/-- **Threads on peers of their own do not interfere.**  Let every action be on one peer, and let no
two threads have a peer in common.  Whatever the schedule, as long as readings do not move the clock,
the shared registry is the disjoint union of the registries that the threads have alone, with as many
peers as these have together, and every action is answered as it is when its thread is alone.  So
every other schedule leaves the same session. -/
theorem threads_do_not_interfere {ι : Type} [Fintype ι] [DecidableEq ι]
    (threads : ι → List Action) (hapart : Apart threads) (clock : Clock) (hclock : clock.step = 0)
    (schedule : List (ι × Action)) (hschedule : Schedules schedule threads) :
    let shared := (Session.start clock).run (schedule.map Prod.snd)
    let alone i := (Session.start clock).run (threads i)
    shared.2.node.registry.IsDisjointUnion (fun i => (alone i).2.node.registry) ∧
      shared.2.node.registry.size = ∑ i, (alone i).2.node.registry.size ∧
      (∀ i, lane i ((schedule.map Prod.fst).zip (shared.1.map Step.answer)) =
        (alone i).1.map Step.answer) ∧
      ∀ other : List (ι × Action), Schedules other threads →
        ((Session.start clock).run (other.map Prod.snd)).2 = shared.2 := by
  intro shared alone
  have hunion := hapart.isDisjointUnion_run hclock hschedule
  refine ⟨hunion, hunion.size_eq, ?_, ?_⟩
  · intro i
    exact (hapart.sameFor_run hclock hschedule i).1
  · intro other hother
    exact hapart.run_eq hclock hschedule hother

/-- Two threads, of which one forgets its peer in the midst of the other's actions. -/
theorem threads_do_not_interfere_in_turns :
    let threads : Bool → List Action := fun
      | true => [.upsert "a" "x", .touch "a", .get "a"]
      | false => [.upsert "b" "y", .remove "b", .touch "b"]
    let schedule : List (Bool × Action) :=
      [(true, .upsert "a" "x"), (false, .upsert "b" "y"), (true, .touch "a"), (false, .remove "b"),
        (true, .get "a"), (false, .touch "b")]
    let shared := (Session.start ⟨7, 0, 0⟩).run (schedule.map Prod.snd)
    Apart threads ∧ Schedules schedule threads ∧ shared.2.node.registry.size = 1 ∧
      lane false ((schedule.map Prod.fst).zip (shared.1.map Step.answer)) =
        [.ok .done, .ok (.sighting (some ⟨"y", ⟨0, 7⟩⟩)), .ok (.flag false)] := by
  intro threads schedule shared
  have hapart : Apart threads := by
    refine ⟨by decide, ?_⟩
    intro i j id hi hj
    cases i <;> cases j <;> simp_all [threads, Action.peersOf, Action.peer?]
  have hschedule : Schedules schedule threads := by
    intro i
    cases i <;> rfl
  obtain ⟨-, hsize, hanswers, -⟩ :=
    threads_do_not_interfere threads hapart ⟨7, 0, 0⟩ rfl schedule hschedule
  exact ⟨hapart, hschedule, hsize.trans rfl, (hanswers false).trans rfl⟩

end Presence
