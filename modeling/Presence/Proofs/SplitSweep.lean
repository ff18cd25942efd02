/-
Presence/Proofs/SplitSweep.lean

A sweep in two halves, with other actions between them.

A sweep first looks at the clock and takes its cutoff, and then forgets the peers
before the cutoff.  Where several users work on one registry, actions of others
may slip in between these two halves.  The sweep is then no longer one action,
but a reading (`Session.ticked`), the actions between, and a prune at the cutoff
that was taken before them.  With nothing between, it is the sweep as a whole
(`Session.splitsAt_of_command?`).

It does no harm.  Let `now` be the time of the reading, and let no later reading
show less.  Then for each id, what slips in leaves one of two things behind:

    nothing has been done to the peer     it is known as it was at the reading;
    something has                         it was seen at `now` or later, or is gone

(`Session.get?_run_of_not_did`, `Session.seenSince_run_of_did`).  A peer of the second
kind is not before the cutoff, whatever the age, since the comparison is strict.

Main result: the prune forgets exactly those that were too old at the reading and
to whom nothing has been done since (`sweep_spares_who_slips_in`).
-/
import Presence.Proofs.BreakOff
import Presence.Proofs.Ledger

namespace Presence

/-! ### What actions do to one peer -/

/-- The command upserts, touches or removes the peer. -/
def Command.concerns (id : String) : Command → Bool
  | upsert key _ | touch key | remove key => key = id
  | get _ | list | prune _ => false

/-- The command forgets peers by their age. -/
def Command.prunes : Command → Bool
  | prune _ => true
  | upsert _ _ | touch _ | remove _ | get _ | list => false

/-- The action upserts, touches or removes the peer, by itself or through the console. -/
def Action.concerns (id : String) (a : Action) : Bool := a.command?.any (Command.concerns id)

/-- The action forgets peers by when they were seen, by itself or through the console. -/
def Action.prunes : Action → Bool
  | prune _ => true
  | a => a.command?.any Command.prunes

theorem Command.concerns_of_sees {id : String} {c : Command} (h : c.sees id = true) :
    c.concerns id = true := by
  cases c <;> simp_all [sees, concerns]

theorem Action.concerns_of_sees {id : String} {a : Action} (h : a.sees id = true) :
    a.concerns id = true := by
  obtain ⟨c, hc, hsees⟩ := (Option.any_eq_true _ _).1 h
  exact (Option.any_eq_true _ _).2 ⟨c, hc, Command.concerns_of_sees hsees⟩

theorem Command.eventFor_eq_none {id : String} {c : Command} (hconcerns : c.concerns id = false)
    (hprunes : c.prunes = false) (now? : Option Instant) : c.eventFor id now? = none := by
  cases c <;> simp_all [concerns, prunes, eventFor]

/-- An action that neither concerns the peer nor prunes is no event for it. -/
theorem Action.eventFor_eq_none {id : String} {a : Action} (hconcerns : a.concerns id = false)
    (hprunes : a.prunes = false) (now? : Option Instant) : a.eventFor id now? = none := by
  rcases hc : a.command? with - | c
  · obtain ⟨cutoff, rfl⟩ | hnone := prune_or_eventFor_eq_none hc
    · cases hprunes
    · exact hnone id now?
  · rw [eventFor_of_command? hc]
    refine Command.eventFor_eq_none ?_ ?_ now?
    · simpa [concerns, hc] using hconcerns
    · cases a <;> simp_all [prunes, command?]

theorem Command.sees_of_concerns {id : String} {c : Command} (hconcerns : c.concerns id = true)
    {r : Registry} (hreads : c.readsClock r = true) : c.sees id = true := by
  cases c with
  | upsert key content => exact hconcerns
  | touch key => exact hconcerns
  | remove key => cases hreads
  | get key => cases hconcerns
  | list => cases hconcerns
  | prune maxAge => cases hconcerns

/-- Whoever looks at the clock on behalf of a peer has seen it. -/
theorem Action.sees_of_concerns {id : String} {a : Action} (hconcerns : a.concerns id = true)
    {r : Registry} (hreads : a.readsClock r = true) : a.sees id = true := by
  obtain ⟨c, hc, hid⟩ := (Option.any_eq_true _ _).1 hconcerns
  rw [readsClock, hc] at hreads
  rw [sees, hc]
  exact Command.sees_of_concerns hid hreads

/-! ### One action in between -/

namespace Session

variable {s : Session} {a : Action} {id : String} {bound : Int}

theorem SeenSince.of_unknown (h : s.node.registry.get? id = none) : s.SeenSince id bound := by
  intro x hx
  rw [h] at hx
  cases hx

/-- What is known of a peer stays as it is if an action neither concerns it nor prunes, or breaks
off. -/
theorem get?_perform_of_not (hprunes : a.prunes = false)
    (h : ¬ (a.concerns id = true ∧ (s.perform a).1.answer.isOk = true)) :
    (s.perform a).2.node.registry.get? id = s.node.registry.get? id := by
  rcases hanswer : (s.perform a).1.answer with f | answer
  · -- an action that breaks off is a step of the clock
    rw [(s.perform_of_error hanswer).2]
    rfl
  · have hconcerns : a.concerns id = false := by
      rw [hanswer] at h
      simpa [Except.isOk, Except.toBool] using h
    rw [get?_perform, Action.eventFor_eq_none hconcerns hprunes]
    rfl

/-- A peer that an action concerns without a look at the clock is not tracked afterwards. -/
theorem get?_perform_of_concerns (hconcerns : a.concerns id = true)
    (hreads : a.readsClock s.node.registry = false) :
    (s.perform a).2.node.registry.get? id = none := by
  obtain ⟨c, hc, hid⟩ := (Option.any_eq_true _ _).1 hconcerns
  have hcreads : c.readsClock s.node.registry = false := by
    simpa [Action.readsClock, hc] using hreads
  rw [get?_perform, Action.eventFor_of_command? hc]
  cases c with
  | upsert key content => cases hcreads
  | touch key =>
    obtain rfl : key = id := of_decide_eq_true hid
    -- there is nobody to be touched
    rw [Command.eventFor, if_pos rfl, (Registry.contains_eq_false_iff _).1 hcreads]
    rcases s.node.clock.now? with - | now <;> rfl
  | remove key =>
    obtain rfl : key = id := of_decide_eq_true hid
    rw [Command.eventFor, if_pos rfl]
    rfl
  | get key => cases hid
  | list => cases hid
  | prune maxAge => cases hid

/-- A peer that an action concerns was seen at its reading or is gone, unless the action has broken
off. -/
theorem seenSince_perform_of_concerns (hconcerns : a.concerns id = true)
    (hok : (s.perform a).1.answer.isOk = true)
    (hbound : a.readsClock s.node.registry = true → bound ≤ s.node.clock.nanos) :
    (s.perform a).2.SeenSince id bound := by
  rcases hreads : a.readsClock s.node.registry with - | -
  · exact .of_unknown (get?_perform_of_concerns hconcerns hreads)
  · -- with a clock that cannot be read, the action would have broken off
    have hread : s.node.clock.Readable := by
      by_contra hnot
      obtain ⟨f, hf⟩ := (s.error_iff a).2 ⟨hreads, hnot⟩
      rw [hf] at hok
      cases hok
    have hsees := Action.sees_of_concerns hconcerns hreads
    exact (seenSince_perform_of_sees hread hsees).mono (hbound hreads)

/-- An action that does not prune makes no peer older than the bound, if it takes no earlier
reading. -/
theorem SeenSince.perform_of_reads (h : s.SeenSince id bound) (hprunes : a.prunes = false)
    (hbound : a.readsClock s.node.registry = true → bound ≤ s.node.clock.nanos) :
    (s.perform a).2.SeenSince id bound := by
  by_cases hdone : a.concerns id = true ∧ (s.perform a).1.answer.isOk = true
  · exact seenSince_perform_of_concerns hdone.1 hdone.2 hbound
  · intro x hx
    rw [get?_perform_of_not hprunes hdone] at hx
    exact h x hx

/-! ### All actions in between -/

/-- No reading that is taken in the course of the actions shows less than the bound. -/
def ReadsSince (bound : Int) (s : Session) : List Action → Prop
  | [] => True
  | a :: rest =>
    (a.readsClock s.node.registry = true → bound ≤ s.node.clock.nanos) ∧
      (s.perform a).2.ReadsSince bound rest

instance decidableReadsSince (bound : Int) (s : Session) :
    (actions : List Action) → Decidable (s.ReadsSince bound actions)
  | [] => .isTrue trivial
  | a :: rest =>
    have := (s.perform a).2.decidableReadsSince bound rest
    inferInstanceAs (Decidable (_ ∧ _))

/-- One of the actions is such, and does not break off. -/
def Did (p : Action → Bool) (s : Session) : List Action → Prop
  | [] => False
  | a :: rest =>
    (p a = true ∧ (s.perform a).1.answer.isOk = true) ∨ (s.perform a).2.Did p rest

instance decidableDid (p : Action → Bool) (s : Session) :
    (actions : List Action) → Decidable (s.Did p actions)
  | [] => .isFalse fun h => h
  | a :: rest =>
    have := (s.perform a).2.decidableDid p rest
    inferInstanceAs (Decidable (_ ∨ _))

variable {actions : List Action}

theorem Did.mono {p q : Action → Bool} (h : s.Did p actions) (hle : ∀ a, p a = true → q a = true) :
    s.Did q actions := by
  induction actions generalizing s with
  | nil => exact h
  | cons a rest ih =>
    obtain ⟨hp, hok⟩ | hrest := h
    · exact Or.inl ⟨hle a hp, hok⟩
    · exact Or.inr (ih hrest)

/-- A peer to whom nothing is done is known as it was. -/
theorem get?_run_of_not_did (hprunes : ∀ a ∈ actions, a.prunes = false)
    (h : ¬ s.Did (Action.concerns id) actions) :
    (s.run actions).2.node.registry.get? id = s.node.registry.get? id := by
  induction actions generalizing s with
  | nil => rfl
  | cons a rest ih =>
    obtain ⟨hfirst, hrest⟩ := List.forall_mem_cons.1 hprunes
    obtain ⟨hnot, hnotrest⟩ := not_or.1 h
    exact (ih hrest hnotrest).trans (get?_perform_of_not hfirst hnot)

theorem SeenSince.run_of_reads (h : s.SeenSince id bound) (hprunes : ∀ a ∈ actions, a.prunes = false)
    (hreads : s.ReadsSince bound actions) : (s.run actions).2.SeenSince id bound := by
  induction actions generalizing s with
  | nil => exact h
  | cons a rest ih =>
    obtain ⟨hfirst, hrest⟩ := List.forall_mem_cons.1 hprunes
    exact ih (h.perform_of_reads hfirst hreads.1) hrest hreads.2

/-- A peer to whom something is done has been seen since, or is gone. -/
theorem seenSince_run_of_did (hprunes : ∀ a ∈ actions, a.prunes = false)
    (hreads : s.ReadsSince bound actions) (h : s.Did (Action.concerns id) actions) :
    (s.run actions).2.SeenSince id bound := by
  induction actions generalizing s with
  | nil => exact h.elim
  | cons a rest ih =>
    obtain ⟨-, hrest⟩ := List.forall_mem_cons.1 hprunes
    obtain ⟨hconcerns, hok⟩ | hlater := h
    · exact (seenSince_perform_of_concerns hconcerns hok hreads.1).run_of_reads hrest hreads.2
    · exact ih hrest hreads.2 hlater

/-! ### The two halves -/

/-- The session after a reading of the clock. -/
def ticked (s : Session) : Session := { s with node := s.node.tick }

/-- The action is a reading of the clock and then a prune at the cutoff. -/
structure SplitsAt (cutoff : Instant) (s : Session) (a : Action) : Prop where
  /-- The action lists the ids that the prune gives. -/
  listed : ∃ answer l, (s.perform a).1.answer = .ok answer ∧ answer.listed? = some l ∧
    (s.ticked.perform (.prune cutoff)).1.answer = .ok (.ids l)
  /-- The action leaves the session that the prune leaves. -/
  session_eq : (s.perform a).2 = (s.ticked.perform (.prune cutoff)).2

theorem splitsAt_of_outcome {now : Instant} (hnow : s.node.clock.now? = some now) {maxAge : Age}
    {f : List String → Answer} (hf : ∀ l, (f l).listed? = some l) (hhold : a ≠ .hold)
    (hresult : (s.outcome a).result = (s.node.dropOlderThan maxAge).result.map f)
    (hnode : (s.outcome a).node = (s.node.dropOlderThan maxAge).node) :
    s.SplitsAt (cutoffBefore now maxAge) a := by
  have hdrop : s.node.dropOlderThan maxAge = s.node.tick.dropBefore (cutoffBefore now maxAge) := by
    rw [Node.dropOlderThan, Node.reading, hnow]
    rfl
  rw [hdrop] at hresult hnode
  refine ⟨⟨_, _, hresult, hf _, rfl⟩, ?_⟩
  rw [perform, if_neg hhold, hnode]
  rfl

theorem outcome_line {c : Command} {text : String} (h : Command.parse text = .ok (some c)) :
    s.outcome (.line text) = s.outcome (.command c) := by
  simp only [outcome, Node.respond, h]
  rcases c.run s.node with ⟨f | reply, n, log⟩ <;> rfl

/-- A sweep is a reading and a prune, be it ordered through the console or not. -/
theorem splitsAt_of_command? {now : Instant} (hnow : s.node.clock.now? = some now) {maxAge : Age}
    (ha : a.command? = some (.prune maxAge)) : s.SplitsAt (cutoffBefore now maxAge) a := by
  have hresult : (s.outcome (.command (.prune maxAge))).result =
      (s.node.dropOlderThan maxAge).result.map fun l => .reply (some (.pruned l)) := by
    simp only [outcome, Command.run, Outcome.result_map, Outcome.result_logging]
    rcases (s.node.dropOlderThan maxAge).result with f | l <;> rfl
  have hnode : (s.outcome (.command (.prune maxAge))).node =
      (s.node.dropOlderThan maxAge).node := by
    simp only [outcome, Command.run, Outcome.node_map, Outcome.node_logging]
  cases a with
  | sweep age =>
    obtain rfl := Command.prune.inj (Option.some.inj ha)
    refine splitsAt_of_outcome hnow (f := .ids) (fun _ => rfl) Action.noConfusion ?_
      (s.node.node_sweep age)
    rw [outcome, Outcome.result_map, Node.result_sweep]
  | command c =>
    obtain rfl := Option.some.inj ha
    exact splitsAt_of_outcome hnow (fun _ => rfl) Action.noConfusion hresult hnode
  | line text =>
    have hparse : Command.parse text = .ok (some (.prune maxAge)) := by
      rw [Action.command?] at ha
      rcases hparse : Command.parse text with e | c <;> rw [hparse] at ha
      · cases ha
      · exact congrArg Except.ok ha
    rw [← outcome_line hparse] at hresult hnode
    exact splitsAt_of_outcome hnow (fun _ => rfl) Action.noConfusion hresult hnode
  | upsert _ _ | touch _ | remove _ => cases ha
  | setClock _ | advance _ | get _ | contains _ | size | isEmpty | snapshot | hold | held
  | prune _ => cases ha

/-- The prune finds too old whoever was so at the reading and has been left alone since. -/
theorem mem_stale_run_iff (hrange : s.InRange) {maxAge : Age} (hage : maxAge.Ordinary)
    {now : Instant} (hnow : s.node.clock.now? = some now)
    (hprunes : ∀ a ∈ actions, a.prunes = false) (hreads : s.ticked.ReadsSince now.toNanos actions) :
    id ∈ (s.ticked.run actions).2.node.registry.stale (cutoffBefore now maxAge) ↔
      (∃ x, s.node.registry.get? id = some x ∧
        (maxAge.toNanos : Int) < now.toNanos - x.lastSeen.toNanos) ∧
      ¬ s.ticked.Did (Action.concerns id) actions := by
  have hin := (Clock.inRange_of_now? hnow).1
  rw [Registry.mem_stale_iff]
  by_cases hdid : s.ticked.Did (Action.concerns id) actions
  · -- the peer was seen at the reading or later, which is not before the cutoff
    refine iff_of_false ?_ fun h => h.2 hdid
    rintro ⟨x, hx, hlt⟩
    obtain ⟨hxin, hseen⟩ := seenSince_run_of_did hprunes hreads hdid x hx
    have hold := (lt_cutoffBefore_iff hin hxin hage).1 hlt
    omega
  · rw [get?_run_of_not_did hprunes hdid, and_iff_left hdid]
    refine exists_congr fun x => and_congr_right fun hx => ?_
    exact lt_cutoffBefore_iff hin (hrange id x hx) hage

end Session

/-- **A sweep spares who slips in.**  Let a sweep look at the clock and take its cutoff, and let
other actions follow before it prunes, none of which prunes itself or takes an earlier reading.
The prune then forgets nobody who has been tracked or touched in between.  It forgets exactly those
that were older than the age at the reading and to whom nothing has been done since, each of them
once, and it leaves the others as they are. -/
theorem sweep_spares_who_slips_in (s : Session) (hrange : s.InRange) (maxAge : Age)
    (hage : maxAge.Ordinary) (now : Instant) (hnow : s.node.clock.now? = some now)
    (between : List Action) (hprunes : ∀ a ∈ between, a.prunes = false)
    (hreads : s.ticked.ReadsSince now.toNanos between) :
    let cutoff := cutoffBefore now maxAge
    let slipped := (s.ticked.run between).2
    let pruned := slipped.perform (.prune cutoff)
    (∀ a, a.command? = some (.prune maxAge) → s.SplitsAt cutoff a) ∧
      ∃ dropped, pruned.1.answer = .ok (.ids dropped) ∧ dropped.Nodup ∧
        (∀ id, s.ticked.Did (Action.sees id) between → id ∉ dropped) ∧
        (∀ id, id ∈ dropped ↔
          (∃ x, s.node.registry.get? id = some x ∧
            (maxAge.toNanos : Int) < now.toNanos - x.lastSeen.toNanos) ∧
          ¬ s.ticked.Did (Action.concerns id) between) ∧
        ∀ id, pruned.2.node.registry.get? id =
          if id ∈ dropped then none else slipped.node.registry.get? id := by
  intro cutoff slipped pruned
  have hpruned := slipped.perform_prune cutoff
  refine ⟨fun a ha => Session.splitsAt_of_command? hnow ha,
    slipped.node.registry.stale cutoff, ?_, Registry.nodup_stale _ _, ?_, ?_, ?_⟩
  · exact congrArg (fun p => p.1.answer) hpruned
  · intro id hdid hdropped
    have hnot := ((Session.mem_stale_run_iff hrange hage hnow hprunes hreads).1 hdropped).2
    exact hnot (hdid.mono fun a => Action.concerns_of_sees)
  · intro id
    exact Session.mem_stale_run_iff hrange hage hnow hprunes hreads
  · intro id
    have hregistry : pruned.2.node.registry = slipped.node.registry.prune cutoff :=
      congrArg (fun p => p.2.node.registry) hpruned
    rw [hregistry]
    exact slipped.node.registry.get?_prune_eq_ite cutoff id

/-- A sweep at age zero.  One of two peers is touched at the very time of the reading, and stays. -/
theorem sweep_spares_whoever_is_touched :
    let s := ((Session.start ⟨5, 0, 0⟩).run [.upsert "a" "x", .upsert "b" "y", .setClock 10]).2
    let between : List Action := [.touch "a", .advance 1, .touch "c", .upsert "d" "z", .remove "d"]
    let cutoff := cutoffBefore ⟨0, 10⟩ ⟨0, 0⟩
    s.node.clock.now? = some ⟨0, 10⟩ ∧ s.ticked.ReadsSince 10 between ∧
      ∃ dropped,
        ((s.ticked.run between).2.perform (.prune cutoff)).1.answer = .ok (.ids dropped) ∧
          "a" ∉ dropped ∧ "b" ∈ dropped := by
  intro s between cutoff
  have hage : (Age.mk 0 0).Ordinary := by
    show 0 < nanosPerSecond
    decide
  have hnow : s.node.clock.now? = some ⟨0, 10⟩ := by decide
  have hreads : s.ticked.ReadsSince (Instant.toNanos ⟨0, 10⟩) between := by decide
  obtain ⟨-, dropped, hanswer, -, hsees, hdropped, -⟩ :=
    sweep_spares_who_slips_in s (Session.inRange_run _ _) ⟨0, 0⟩ hage ⟨0, 10⟩ hnow between
      (by decide) hreads
  refine ⟨hnow, hreads, dropped, hanswer, hsees "a" (by decide), (hdropped "b").2 ⟨?_, by decide⟩⟩
  exact ⟨⟨"y", ⟨0, 5⟩⟩, by decide, by decide⟩

end Presence
