/-
Presence/Proofs/Ledger.lean

The books of a registry: who has been tracked anew, and who has been forgotten.

A session is entered in a ledger by what its user is told.  An upsert of a peer
that is not tracked tracks it anew; a peer is forgotten when a remove gives what
was known of it, or when a prune or a sweep names it, be it through the console
or not (`Session.booked`).  An action that breaks off is not entered.

Whatever an action is, the registry takes one of four turns (`Registry.Turn`),

    keep     nothing is entered;
    insert   the id is entered as tracked, if it was not contained;
    erase    the id is entered as forgotten, if it was contained;
    prune    the stale ids are entered as forgotten,

and each of them fits the books: seen from one id, changes go from untracked to
tracked and back, one at a time (`Alternates`).

Main result: after every session the ledger of each id alternates and tells
whether the id is tracked, and the ids that were entered as tracked are those
entered as forgotten and those that are still there (`ledger_balances`).
-/
import Presence.Proofs.Freshness
import Presence.Proofs.TrackedIds
import Mathlib.Data.List.Chain

namespace Presence

/-- What happens to a peer. -/
inductive Change where
  /-- It is tracked, and was not before. -/
  | tracked
  /-- It is forgotten, and was tracked before. -/
  | forgotten
  deriving DecidableEq, Repr

namespace Ledger

/-- An entry of a ledger. -/
structure Entry where
  /-- The peer. -/
  id : String
  /-- What happens to it. -/
  change : Change
  deriving DecidableEq, Repr

/-- The changes of one peer, in order. -/
def changesOf (id : String) (ledger : List Entry) : List Change :=
  (ledger.filter fun e => e.id = id).map Entry.change

/-- The ids that are entered with a change, as often as they are. -/
def idsOf (change : Change) (ledger : List Entry) : List String :=
  (ledger.filter fun e => e.change = change).map Entry.id

/-- The entries for a number of ids with one change. -/
def enter (change : Change) (ids : List String) : List Entry := ids.map fun id => ⟨id, change⟩

variable (id : String) (change : Change)

theorem changesOf_append (l m : List Entry) :
    changesOf id (l ++ m) = changesOf id l ++ changesOf id m := by
  rw [changesOf, List.filter_append, List.map_append]
  rfl

theorem changesOf_enter (ids : List String) :
    changesOf id (enter change ids) = List.replicate (ids.count id) change := by
  have hmap : changesOf id (enter change ids) =
      (ids.filter fun key => key = id).map fun _ => change := by
    rw [changesOf, enter, List.filter_map, List.map_map]
    rfl
  rw [hmap, List.filter_eq, List.map_replicate]

/-- How often an id is entered with a change, and how often a change is entered for it. -/
theorem count_idsOf (ledger : List Entry) :
    (idsOf change ledger).count id = (changesOf id ledger).count change := by
  rw [idsOf, changesOf, List.count, List.count, List.countP_map, List.countP_map,
    List.countP_filter, List.countP_filter]
  refine List.countP_congr ?_
  intro e _
  simp [and_comm]

end Ledger

/-! ### Alternating changes -/

/-- The changes lead from one state to another, tracked or not, and each of them is a change. -/
inductive Alternates : Bool → List Change → Bool → Prop
  | nil (b : Bool) : Alternates b [] b
  | tracked {l : List Change} {b : Bool} : Alternates true l b → Alternates false (.tracked :: l) b
  | forgotten {l : List Change} {b : Bool} :
      Alternates false l b → Alternates true (.forgotten :: l) b

namespace Alternates

variable {a b c : Bool} {l m : List Change}

theorem append (h : Alternates a l b) (h' : Alternates b m c) : Alternates a (l ++ m) c := by
  induction h with
  | nil _ => exact h'
  | tracked _ ih => exact .tracked (ih h')
  | forgotten _ ih => exact .forgotten (ih h')

/-- The first change is none that has already happened. -/
theorem head?_ne (h : Alternates a l b) : l.head? ≠ some (if a then .tracked else .forgotten) := by
  cases h with
  | nil _ => simp
  | tracked _ => simp
  | forgotten _ => simp

theorem isChain (h : Alternates a l b) : l.IsChain (· ≠ ·) := by
  induction h with
  | nil _ => exact List.IsChain.nil
  | tracked h ih =>
    refine List.isChain_cons.2 ⟨?_, ih⟩
    rintro y hy rfl
    exact h.head?_ne hy
  | forgotten h ih =>
    refine List.isChain_cons.2 ⟨?_, ih⟩
    rintro y hy rfl
    exact h.head?_ne hy

/-- The last change tells how things stand. -/
theorem eq_getLast? (h : Alternates a l b) : b = (l.getLast?.map (· = .tracked)).getD a := by
  induction h with
  | nil _ => simp
  | @tracked l b _ ih => cases hl : l.getLast? <;> simp_all [List.getLast?_cons]
  | @forgotten l b _ ih => cases hl : l.getLast? <;> simp_all [List.getLast?_cons]

/-- Each change undoes the one before it. -/
theorem count_eq (h : Alternates a l b) :
    l.count .tracked + a.toNat = l.count .forgotten + b.toNat := by
  induction h with
  | nil _ => simp
  | tracked _ ih =>
    rw [List.count_cons_self, List.count_cons_of_ne (by decide)]
    simp only [Bool.toNat_true, Bool.toNat_false] at ih ⊢
    omega
  | forgotten _ ih =>
    rw [List.count_cons_self, List.count_cons_of_ne (by decide)]
    simp only [Bool.toNat_true, Bool.toNat_false] at ih ⊢
    omega

end Alternates

/-! ### The turns of a registry -/

/-- A turn of a registry: which ids are new in it, which have gone, and what has become of it. -/
inductive Registry.Turn (r : Registry) : (added dropped : List String) → Registry → Prop
  | keep : Turn r [] [] r
  | insert (id : String) (x : Sighting) :
      Turn r (if r.contains id then [] else [id]) [] (r.insert id x)
  | erase (id : String) : Turn r [] (if r.contains id then [id] else []) (r.erase id)
  | prune (cutoff : Instant) : Turn r [] (r.stale cutoff) (r.prune cutoff)

namespace Registry.Turn

open Ledger

variable {r s : Registry} {added dropped : List String}

/-- Seen from one id, a turn is a change from what is to what comes of it. -/
theorem alternates (h : r.Turn added dropped s) (id : String) :
    Alternates (r.contains id)
      (changesOf id (enter .tracked added ++ enter .forgotten dropped)) (s.contains id) := by
  rw [changesOf_append, changesOf_enter, changesOf_enter]
  cases h with
  | keep => exact .nil _
  | insert key x =>
    rw [contains_insert]
    by_cases hkey : key = id
    · subst hkey
      rcases hc : r.contains key with - | -
      · simpa using Alternates.tracked (.nil true)
      · simpa using Alternates.nil true
    · rcases r.contains key with - | - <;> simpa [hkey] using Alternates.nil (r.contains id)
  | erase key =>
    rw [contains_erase]
    by_cases hkey : key = id
    · subst hkey
      rcases hc : r.contains key with - | -
      · simpa using Alternates.nil false
      · simpa using Alternates.forgotten (.nil false)
    · rcases r.contains key with - | - <;> simpa [hkey] using Alternates.nil (r.contains id)
  | prune cutoff =>
    rw [contains_prune, (r.nodup_stale cutoff).count]
    by_cases hstale : id ∈ r.stale cutoff
    · simpa [hstale, r.contains_of_mem_stale hstale] using Alternates.forgotten (.nil false)
    · simpa [hstale] using Alternates.nil (r.contains id)

/-- Nobody goes twice in one turn. -/
theorem nodup_dropped (h : r.Turn added dropped s) : dropped.Nodup := by
  cases h with
  | keep => exact List.nodup_nil
  | insert key x => exact List.nodup_nil
  | erase key => split <;> simp
  | prune cutoff => exact r.nodup_stale cutoff

end Registry.Turn

/-! ### What an action enters -/

/-- The ids that a command tracks anew, if it does not break off. -/
def Command.added (r : Registry) : Command → List String
  | upsert id _ => if r.contains id then [] else [id]
  | touch _ | remove _ | get _ | list | prune _ => []

/-- The id that a command removes. -/
def Command.removed? : Command → Option String
  | remove id => some id
  | upsert _ _ | touch _ | get _ | list | prune _ => none

/-- The ids that an action tracks anew, if it does not break off. -/
def Action.added (r : Registry) (a : Action) : List String := a.command?.elim [] (Command.added r)

/-- The id that an action removes. -/
def Action.removed? (a : Action) : Option String := a.command?.bind Command.removed?

/-- The ids of forgotten peers that an answer lists, if it is a list of them. -/
def Answer.listed? : Answer → Option (List String)
  | ids l | reply (some (.pruned l)) => some l
  | _ => none

/-- The answer to a remove tells that the peer was tracked. -/
def Answer.affirms : Answer → Bool
  | sighting (some _) | reply (some .ok) => true
  | _ => false

/-- The ids that are forgotten according to the answer to an action: those that it lists, or the one
to be removed, if the answer affirms that it was tracked. -/
def Answer.dropped (removed? : Option String) (answer : Answer) : List String :=
  answer.listed?.getD (if answer.affirms then removed?.toList else [])

namespace Outcome

variable {α β : Type} {n : Node} {o : Outcome α} {added : List String}

/-- The outcome of an operation on `n` is a turn of the registry, and the result tells who has gone;
an operation that breaks off leaves the registry alone. -/
def Turns (n : Node) (o : Outcome α) (added : List String) (dropped : α → List String) : Prop :=
  match o.result with
  | .ok a => n.registry.Turn added (dropped a) o.node.registry
  | .error _ => o.node.registry = n.registry

theorem Turns.of_ok {dropped : α → List String} (h : o.Turns n added dropped) {a : α}
    (ha : o.result = .ok a) : n.registry.Turn added (dropped a) o.node.registry := by
  rwa [Turns, ha] at h

theorem Turns.of_error {dropped : α → List String} (h : o.Turns n added dropped) {f : Fault}
    (hf : o.result = .error f) : o.node.registry = n.registry := by
  rwa [Turns, hf] at h

theorem Turns.map {f : α → β} {dropped : α → List String} {dropped' : β → List String}
    (h : o.Turns n added dropped) (hf : ∀ a, dropped' (f a) = dropped a) :
    (o.map f).Turns n added dropped' := by
  rw [Turns, result_map, node_map]
  rcases hresult : o.result with e | a
  · exact h.of_error hresult
  · show n.registry.Turn added (dropped' (f a)) o.node.registry
    rw [hf]
    exact h.of_ok hresult

theorem Turns.logging {notices : α → List Notice} {dropped : α → List String}
    (h : o.Turns n added dropped) : (o.logging notices).Turns n added dropped := by
  simpa only [Turns, result_logging, node_logging] using h

end Outcome

namespace Node

variable {α : Type} {added : List String} (n : Node)

theorem turns_reading {lock : Lock} {use : Instant → α × Registry} {dropped : α → List String}
    (h : ∀ now, n.registry.Turn added (dropped (use now).1) (use now).2) :
    (n.reading lock use).Turns n added dropped := by
  rw [Outcome.Turns, result_reading, registry_reading]
  rcases n.clock.now? with - | now
  · rfl
  · exact h now

theorem turns_upsert (id content : String) :
    (n.upsert id content).Turns n (if n.registry.contains id then [] else [id]) fun _ => [] := by
  rw [upsert_eq]
  exact n.turns_reading fun now => .insert id ⟨content, now⟩

theorem turns_touch (id : String) : (n.touch id).Turns n [] fun _ => [] := by
  rw [touch_eq]
  rcases hx : n.registry.get? id with - | x
  · exact .keep
  · refine n.turns_reading fun now => ?_
    -- the id is contained, so that nobody is new
    have hturn := Registry.Turn.insert (r := n.registry) id { x with lastSeen := now }
    rwa [if_pos (n.registry.contains_of_get? hx)] at hturn

theorem turns_remove (id : String) :
    (n.remove id).Turns n [] fun known => if known.isSome then [id] else [] := by
  rw [remove_eq]
  exact Registry.Turn.erase id

theorem turns_dropOlderThan (maxAge : Age) : (n.dropOlderThan maxAge).Turns n [] id := by
  rw [dropOlderThan_eq]
  exact n.turns_reading fun now => .prune (cutoffBefore now maxAge)

theorem turns_dropBefore (cutoff : Instant) : (n.dropBefore cutoff).Turns n [] id := by
  rw [dropBefore_eq]
  exact Registry.Turn.prune cutoff

theorem turns_run (c : Command) : (c.run n).Turns n (c.added n.registry) fun reply =>
    (Answer.reply (some reply)).dropped c.removed? := by
  cases c with
  | upsert id content => exact (n.turns_upsert id content).map (f := fun _ => Reply.ok) fun _ => rfl
  | touch id => exact (n.turns_touch id).map fun known => by cases known <;> rfl
  | remove id => exact (n.turns_remove id).map fun known => by cases known <;> rfl
  | get id =>
    rw [run_get_eq]
    rcases n.registry.get? id with - | x <;> exact .keep
  | list => exact .keep
  | prune maxAge => exact (n.turns_dropOlderThan maxAge).logging.map fun _ => rfl

theorem turns_respond (text : String) :
    (n.respond text).Turns n ((Action.line text).added n.registry) fun reply? =>
      (Answer.reply reply?).dropped (Action.line text).removed? := by
  rw [respond, Action.added, Action.removed?, Action.command?]
  rcases Command.parse text with e | - | c
  · exact .keep
  · exact .keep
  · exact (n.turns_run c).map fun _ => rfl

end Node

/-! ### A whole session -/

namespace Session

/-- What an action enters in the ledger; one that breaks off enters nothing. -/
def booked (s : Session) (a : Action) : List Ledger.Entry :=
  match (s.perform a).1.answer with
  | .ok answer =>
    Ledger.enter .tracked (a.added s.node.registry) ++
      Ledger.enter .forgotten (answer.dropped a.removed?)
  | .error _ => []

/-- The ledger of a session, in order. -/
def ledger (s : Session) : List Action → List Ledger.Entry
  | [] => []
  | a :: rest => s.booked a ++ (s.perform a).2.ledger rest

variable (s : Session)

/-- Every action is a turn of the registry. -/
theorem turns_outcome (a : Action) :
    (s.outcome a).Turns s.node (a.added s.node.registry) fun answer =>
      answer.dropped a.removed? := by
  cases a with
  | upsert id content => exact (s.node.turns_upsert id content).map fun _ => rfl
  | touch id => exact (s.node.turns_touch id).map fun _ => rfl
  | remove id => exact (s.node.turns_remove id).map fun known => by cases known <;> rfl
  | prune cutoff => exact (s.node.turns_dropBefore cutoff).map fun _ => rfl
  | sweep maxAge => exact (s.node.turns_dropOlderThan maxAge).logging.map fun _ => rfl
  | line text => exact (s.node.turns_respond text).map fun _ => rfl
  | command c => exact (s.node.turns_run c).map fun _ => rfl
  | get id =>
    -- the answer looks like that of a remove, but nobody is to be removed
    show s.node.registry.Turn [] (Answer.dropped none (.sighting (s.node.peers.get? id))) _
    rcases s.node.peers.get? id with - | x <;> exact .keep
  | setClock _ | advance _ | contains _ | size | isEmpty | snapshot | hold | held => exact .keep

theorem alternates_perform (a : Action) (id : String) :
    Alternates (s.node.registry.contains id) (Ledger.changesOf id (s.booked a))
      ((s.perform a).2.node.registry.contains id) := by
  rw [booked]
  show Alternates _ _ ((s.outcome a).node.registry.contains id)
  rcases hanswer : (s.perform a).1.answer with f | answer
  · rw [(s.turns_outcome a).of_error hanswer]
    exact .nil _
  · exact ((s.turns_outcome a).of_ok hanswer).alternates id

/-- No answer lists an id twice. -/
theorem nodup_listed (a : Action) {answer : Answer} {l : List String}
    (h : (s.perform a).1.answer = .ok answer) (hl : answer.listed? = some l) : l.Nodup := by
  have hnodup := ((s.turns_outcome a).of_ok h).nodup_dropped
  have hdropped : answer.dropped a.removed? = l := by
    rw [Answer.dropped, hl, Option.getD_some]
  rwa [hdropped] at hnodup

theorem alternates_run (actions : List Action) (id : String) :
    Alternates (s.node.registry.contains id) (Ledger.changesOf id (s.ledger actions))
      ((s.run actions).2.node.registry.contains id) := by
  induction actions generalizing s with
  | nil => exact .nil _
  | cons a rest ih =>
    rw [ledger, Ledger.changesOf_append]
    exact (s.alternates_perform a id).append (ih (s.perform a).2)

theorem nodup_listed_run (actions : List Action) {step : Step} (hstep : step ∈ (s.run actions).1)
    {answer : Answer} {l : List String} (h : step.answer = .ok answer)
    (hl : answer.listed? = some l) : l.Nodup := by
  induction actions generalizing s with
  | nil => exact absurd hstep List.not_mem_nil
  | cons a rest ih =>
    rcases List.mem_cons.1 hstep with rfl | hrest
    · exact s.nodup_listed a h hl
    · exact ih (s.perform a).2 hrest

/-- The ids that have been tracked anew are those that have been forgotten since and those that are
tracked now, if nobody was tracked at first. -/
theorem perm_idsOf (clock : Clock) (actions : List Action) :
    (Ledger.idsOf .forgotten ((start clock).ledger actions) ++
      ((start clock).run actions).2.node.registry.ids).Perm
        (Ledger.idsOf .tracked ((start clock).ledger actions)) := by
  -- an id is tracked anew as often as it is forgotten, and once more if it is there now
  refine List.perm_iff_count.2 fun id => ?_
  have hcount := ((start clock).alternates_run actions id).count_eq
  have hempty : (start clock).node.registry.contains id = false := rfl
  rw [List.count_append, Ledger.count_idsOf, Ledger.count_idsOf, (Registry.nodup_ids _).count]
  simp only [Registry.mem_ids_iff]
  rw [hempty] at hcount
  rcases hc : ((start clock).run actions).2.node.registry.contains id with - | - <;>
    simpa [hc] using hcount.symm

/-- All queries show these peers. -/
structure Shows (s : Session) (peers : Registry) : Prop where
  /-- The snapshot is these peers, none of them twice. -/
  snapshot : (s.perform .snapshot).1.answer = .ok (.peers peers) ∧ peers.ids.Nodup
  /-- What is known of a peer is what stands under its id. -/
  get (id : String) : ∃ known, (s.perform (.get id)).1.answer = .ok (.sighting known) ∧
    ∀ x, known = some x ↔ (id, x) ∈ peers.entries
  /-- Contained are the ids of these peers. -/
  contains (id : String) : ∃ b, (s.perform (.contains id)).1.answer = .ok (.flag b) ∧
    (b = true ↔ id ∈ peers.ids)
  /-- Their number is the number of their ids. -/
  size : (s.perform .size).1.answer = .ok (.count peers.ids.length)
  /-- There is nobody if there are no ids. -/
  isEmpty : ∃ b, (s.perform .isEmpty).1.answer = .ok (.flag b) ∧ (b = true ↔ peers.ids = [])

theorem shows_registry : s.Shows s.node.registry where
  snapshot := ⟨by simp only [perform, outcome, Node.peers_eq], s.node.registry.nodup_ids⟩
  get id := by
    refine ⟨s.node.registry.get? id, ?_, fun _ => s.node.registry.mem_entries_iff.symm⟩
    simp only [perform, outcome, Node.peers_eq]
  contains id := by
    refine ⟨s.node.registry.contains id, ?_, s.node.registry.mem_ids_iff.symm⟩
    simp only [perform, outcome, Node.peers_eq]
  size := by
    rw [Registry.ids, List.length_map]
    simp only [perform, outcome, Node.peers_eq]
    rfl
  isEmpty := by
    refine ⟨s.node.registry.isEmpty, ?_, ?_⟩
    · simp only [perform, outcome, Node.peers_eq]
    · rw [Registry.isEmpty, List.isEmpty_iff, Registry.ids, List.map_eq_nil_iff]

end Session

/-- **The ledger balances.**  After any session the changes of each id in the ledger alternate,
beginning with a peer that is tracked anew, and the id is tracked exactly if the last of them is of
this kind.  No answer lists an id twice.  All queries show the same peers: taken together with those
that have been forgotten they are the peers that have been tracked anew, each as often as it was,
so that their number is the difference. -/
theorem ledger_balances (clock : Clock) (actions : List Action) :
    let start := Session.start clock
    let ledger := start.ledger actions
    let s := (start.run actions).2
    (∀ id,
      let changes := Ledger.changesOf id ledger
      changes.IsChain (· ≠ ·) ∧ changes.head? ≠ some .forgotten ∧
        (s.node.registry.contains id = true ↔ changes.getLast? = some .tracked)) ∧
      (∀ step ∈ (start.run actions).1, ∀ answer, step.answer = .ok answer →
        ∀ l, answer.listed? = some l → l.Nodup) ∧
      s.Shows s.node.registry ∧
      (Ledger.idsOf .forgotten ledger ++ s.node.registry.ids).Perm (Ledger.idsOf .tracked ledger) ∧
      (s.node.registry.size : Int) =
        (Ledger.idsOf .tracked ledger).length - (Ledger.idsOf .forgotten ledger).length := by
  intro start ledger s
  have hperm : (Ledger.idsOf .forgotten ledger ++ s.node.registry.ids).Perm
      (Ledger.idsOf .tracked ledger) := Session.perm_idsOf clock actions
  refine ⟨?_, ?_, s.shows_registry, hperm, ?_⟩
  · intro id changes
    have halternates : Alternates false changes (s.node.registry.contains id) :=
      start.alternates_run actions id
    refine ⟨halternates.isChain, halternates.head?_ne, ?_⟩
    rw [halternates.eq_getLast?]
    rcases changes.getLast? with - | change <;> simp
  · intro step hstep answer hanswer l hl
    exact start.nodup_listed_run actions hstep hanswer hl
  · have hlength := hperm.length_eq
    rw [List.length_append, Registry.ids, List.length_map] at hlength
    show (s.node.registry.entries.length : Int) = _
    omega

/-- A second upsert or remove in a row enters nothing, and neither does a touch. -/
example : (Session.start ⟨5, 0, 0⟩).ledger
    [.upsert "a" "x", .upsert "a" "y", .line "remove a", .remove "a", .touch "a"] =
      [⟨"a", .tracked⟩, ⟨"a", .forgotten⟩] := by decide

end Presence
