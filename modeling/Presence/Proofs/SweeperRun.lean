/-
Presence/Proofs/SweeperRun.lean

A run beside a sweeper is a session in which user and sweeper take turns.

The run is event driven: the user waits, the ticker says when the next tick is
due, the order to stop may have been given, a sweep may break off.  The session
is a list of entries carried out in a row.  `Watch.Mirrors` relates the two at
any time: the user's sessions agree, and the sweeper waits for the first time of
the beat that has not come (`Sweeper.Stands`).  One wait of the user corresponds
to the sweeps up to its end (`Watch.Mirrors.waitUntil`), one action to itself
(`Watch.Mirrors.perform`); so whole runs agree (`Watch.Mirrors.agrees`).

What a sweeper takes for its interval is the beat `I, I + g, I + 2g, ...` where
`g` is the interval `I`, but not more than the longest gap of a ticker.  The
multiples of `I` are these times exactly for the intervals that are no longer
than this gap.
-/
import Presence.Proofs.Schedule
import Presence.Proofs.SweeperFrame

namespace Presence

/-! ### Where the sweeper stands -/

/-- A sweeper that takes these ticks, or that has been told to stop before the start, stands where
it should at a time; `sweeping` tells whether it still sweeps, or never had to. -/
def Sweeper.Stands (ticks : Option Beat) (now : Nat) (sweeping : Bool) : Sweeper → Prop
  | .idle => sweeping = true ∧ now = 0
  | .waiting t =>
    sweeping = true ∧ ∃ b, ticks = some b ∧ t.gap = b.gap ∧ t.due = b.time (b.count now)
  | .ended e => (e = .completed ↔ sweeping = true) ∧ (sweeping = true → ticks = none)

/-- The ticks between two times, if there are any at all. -/
def ticksBetween : Option Beat → Nat → Nat → List Nat
  | none => fun _ _ => []
  | some b => b.between

/-- A ticker started at the beginning for an interval ticks to the beat, at whole milliseconds. -/
structure Beat.Drives (b : Beat) (uptime : Nat) (interval : Age) : Prop where
  start_eq : Ticker.start uptime interval 0 = .ok ⟨b.gap, b.gap_pos, b.first⟩
  milli_first : nanosPerMilli ∣ b.first
  milli_gap : nanosPerMilli ∣ b.gap

/-- The run stands where a session does in which the sweeps have been laid between the actions. -/
structure Watch.Mirrors (uptime : Nat) (plan : SweepPlan) (ticks : Option Beat) (w : Watch)
    (s : Session) (sweeping : Bool) : Prop where
  plan_eq : w.plan = plan
  uptime_eq : w.uptime = uptime
  cancelled_eq : w.cancelled = ticks.isNone
  session_eq : w.session = s.atTime w.now
  stands : w.sweeper.Stands ticks w.now sweeping

/-- What a user gets to see of a step: the answer or fault, and how many peers are tracked. -/
def Step.seen (s : Step) : Except Fault Answer × Nat := (s.answer, s.size)

/-! ### The sweeper at work -/

theorem Beat.Drives.milli_time {b : Beat} {uptime : Nat} {interval : Age}
    (h : b.Drives uptime interval) (k : Nat) :
    nanosPerMilli ∣ b.time k :=
  Nat.dvd_add h.milli_first (Nat.dvd_mul_left_of_dvd h.milli_gap k)

/-- After a tick the sweeper waits for the next one, unless its sweep has broken off. -/
theorem Sweeper.stands_ite {b : Beat} {now : Nat} {t : Ticker} (hgap : t.gap = b.gap)
    (hdue : t.due = b.time (b.count now)) (sound : Bool) :
    Sweeper.Stands (some b) now sound (if sound then .waiting t else .ended (.panicked none)) := by
  cases sound with
  | true => exact ⟨rfl, b, rfl, hgap, hdue⟩
  | false => simp [Stands]

namespace Watch

variable {uptime : Nat} {plan : SweepPlan} {w : Watch} {s : Session} {sweeping : Bool} {b : Beat}

/-- Before the user first waits, a run is its user's session. -/
theorem mirrors_start (ticks : Option Beat) (h : s.node.clock.elapsed = 0) :
    ({ plan, uptime, cancelled := ticks.isNone, session := s } : Watch).Mirrors uptime plan ticks s
      true :=
  ⟨rfl, rfl, rfl, (s.atTime_of_elapsed h).symm, rfl, rfl⟩

/-- Time passes while the sweeper does nothing. -/
theorem Mirrors.atTime {ticks : Option Beat} (h : w.Mirrors uptime plan ticks s sweeping) {t : Nat}
    (ht : w.sweeper.Stands ticks t sweeping) :
    (w.atTime t).Mirrors uptime plan ticks s sweeping where
  plan_eq := h.plan_eq
  uptime_eq := h.uptime_eq
  cancelled_eq := h.cancelled_eq
  session_eq := by
    show w.session.atTime t = s.atTime t
    rw [h.session_eq, Session.atTime_atTime]
  stands := ht

/-- One tick: the sweeper sweeps at the time when the tick is due. -/
theorem Mirrors.sweepNow (h : w.Mirrors uptime plan (some b) s true) {t : Ticker}
    (ht : w.sweeper = .waiting t) :
    ((w.atTime t.due).sweepNow t).Mirrors uptime plan (some b)
      ((s.atTime t.due).perform (.sweep plan.maxAge)).2
      ((s.atTime t.due).perform (.sweep plan.maxAge)).1.answer.isOk := by
  obtain ⟨-, b', hb', hgap, hdue⟩ : Sweeper.Stands (some b) w.now true (.waiting t) := ht ▸ h.stands
  obtain rfl := Option.some.inj hb'
  have hplan : (w.atTime t.due).plan = plan := h.plan_eq
  have hsession : (w.atTime t.due).session = s.atTime t.due := by
    show w.session.atTime t.due = _
    rw [h.session_eq, Session.atTime_atTime]
  refine ⟨?_, ?_, ?_, ?_, ?_⟩
  · rw [plan_sweepNow, hplan]
  · rw [uptime_sweepNow]
    exact h.uptime_eq
  · rw [cancelled_sweepNow]
    exact h.cancelled_eq
  · rw [session_sweepNow, now_sweepNow, hplan, hsession]
    exact (Session.atTime_perform s t.due _).symm
  · rw [sweeper_sweepNow_eq, now_sweepNow, hplan, hsession, now_atTime]
    have hgap' : (t.next t.due).gap = b.gap := (t.gap_next t.due).trans hgap
    refine Sweeper.stands_ite hgap' ?_ _
    rw [Ticker.due_next_due, hdue, Beat.count_time, Beat.time_succ, hgap]

/-- A sweeper that has begun, and takes these ticks, either waits for the next one or has ended. -/
theorem Mirrors.waiting_or_ended (h : w.Mirrors uptime plan (some b) s sweeping)
    (hidle : w.sweeper ≠ .idle) :
    (sweeping = true ∧
        ∃ t, w.sweeper = .waiting t ∧ t.gap = b.gap ∧ t.due = b.time (b.count w.now)) ∨
      (sweeping = false ∧ ∃ e, w.sweeper = .ended e) := by
  have hstands := h.stands
  rcases hw : w.sweeper with - | t | e
  · exact absurd hw hidle
  · rw [hw] at hstands
    obtain ⟨hsweeping, b', hb', hgap, hdue⟩ := hstands
    obtain rfl := Option.some.inj hb'
    exact Or.inl ⟨hsweeping, t, rfl, hgap, hdue⟩
  · rw [hw] at hstands
    refine Or.inr ⟨?_, e, rfl⟩
    cases sweeping with
    | true => exact absurd (hstands.2 rfl) (by simp)
    | false => rfl

/-- A sweeper that has ended sweeps no more, and neither does a schedule. -/
theorem Mirrors.sweepUntil_of_ended {ticks : Option Beat} {e : TaskEnd}
    (h : w.Mirrors uptime plan ticks s sweeping) (he : w.sweeper = .ended e) (limit : Nat) :
    ((w.sweepUntil limit).atTime limit).Mirrors uptime plan ticks s sweeping := by
  have hnone : ∀ t, w.sweeper ≠ .waiting t := by
    intro t ht
    simp [he] at ht
  rw [sweepUntil_of_not_waiting hnone]
  refine h.atTime ?_
  have hstands := h.stands
  rw [he] at hstands ⊢
  exact hstands

/-- All ticks up to a time: the sweeper does what a schedule of sweeps does. -/
theorem Mirrors.sweepUntil (hb : b.Drives uptime plan.interval) {limit : Nat}
    (h : w.Mirrors uptime plan (some b) s sweeping) (hidle : w.sweeper ≠ .idle)
    (hlimit : w.now ≤ limit) :
    ((w.sweepUntil limit).atTime limit).Mirrors uptime plan (some b)
      (s.swept plan.maxAge sweeping (b.between w.now limit)).2
      (s.swept plan.maxAge sweeping (b.between w.now limit)).1 := by
  -- by induction on the number of ticks that are still to come
  induction hn : b.count limit - b.count w.now generalizing w s sweeping with
  | zero =>
    rcases h.waiting_or_ended hidle with ⟨rfl, t, ht, hgap, hdue⟩ | ⟨rfl, e, he⟩
    · -- the next tick comes after the limit
      have hmono := b.count_mono hlimit
      have hcount : b.count limit = b.count w.now := by omega
      have hlate : ¬ t.arrival w.now ≤ limit := by
        have harrival := t.due_le_arrival w.now
        have hlt := b.lt_time_count limit
        rw [hcount, ← hdue] at hlt
        omega
      rw [Watch.sweepUntil_of_waiting ht, if_neg hlate, b.between_of_count_le (Nat.le_of_eq hcount)]
      refine h.atTime ?_
      rw [ht]
      exact ⟨rfl, b, rfl, hgap, hcount ▸ hdue⟩
    · rw [Session.swept_false]
      exact h.sweepUntil_of_ended he limit
  | succ n ih =>
    rcases h.waiting_or_ended hidle with ⟨rfl, t, ht, hgap, hdue⟩ | ⟨rfl, e, he⟩
    · -- the next tick is received when it is due, and the one behind it comes a gap later
      have hlt : b.count w.now < b.count limit := by omega
      have hle : t.due ≤ limit := hdue ▸ b.lt_count_iff.1 hlt
      have hcount : b.count t.due = b.count w.now + 1 := by rw [hdue, Beat.count_time]
      have hreceived : t.arrival w.now = t.due :=
        Ticker.arrival_eq_due (hdue ▸ hb.milli_time _) (hdue ▸ Nat.le_of_lt (b.lt_time_count _))
      rw [Watch.sweepUntil_of_waiting ht, hreceived, if_pos hle, b.between_of_count_lt hlt, ← hdue,
        Session.swept_cons]
      have hnext := h.sweepNow ht
      have hnow : ((w.atTime t.due).sweepNow t).now = t.due := by rw [now_sweepNow, now_atTime]
      have hrest := ih hnext (sweeper_sweepNow_ne_idle _ t) (by rw [hnow]; exact hle)
        (by rw [hnow]; omega)
      rw [hnow] at hrest
      exact hrest
    · rw [Session.swept_false]
      exact h.sweepUntil_of_ended he limit

/-! ### Waits, actions and the end -/

/-- The sweeper begins, and stands where it should. -/
theorem Mirrors.beginSweeper {ticks : Option Beat} (hb : ∀ b ∈ ticks, b.Drives uptime plan.interval)
    (h : w.Mirrors uptime plan ticks s sweeping) (hidle : w.sweeper = .idle) :
    w.beginSweeper.Mirrors uptime plan ticks s sweeping := by
  have hstands := h.stands
  rw [hidle] at hstands
  obtain ⟨rfl, hnow⟩ := hstands
  cases ticks with
  | none =>
    rw [beginSweeper_of_cancelled h.cancelled_eq]
    refine ⟨h.plan_eq, h.uptime_eq, h.cancelled_eq, h.session_eq, ?_⟩
    show Sweeper.Stands none w.now true (.ended .completed)
    simp [Sweeper.Stands]
  | some b =>
    have hstart : Ticker.start w.uptime w.plan.interval w.now =
        .ok ⟨b.gap, b.gap_pos, b.first⟩ := by
      rw [h.uptime_eq, h.plan_eq, hnow]
      exact (hb b rfl).start_eq
    have hfirst : b.first = b.time (b.count w.now) := by
      rw [hnow, Beat.count_zero, Beat.time, Nat.zero_mul, Nat.add_zero]
    rw [beginSweeper_of_start h.cancelled_eq hstart]
    refine ⟨h.plan_eq, h.uptime_eq, h.cancelled_eq, h.session_eq, ?_⟩
    show Sweeper.Stands (some b) w.now true (.waiting ⟨b.gap, b.gap_pos, b.first⟩)
    exact ⟨rfl, b, rfl, rfl, hfirst⟩

theorem Mirrors.begun {ticks : Option Beat} (hb : ∀ b ∈ ticks, b.Drives uptime plan.interval)
    (h : w.Mirrors uptime plan ticks s sweeping) :
    w.begun.Mirrors uptime plan ticks s sweeping := by
  rw [Watch.begun]
  split
  · next hidle => exact h.beginSweeper hb hidle
  · exact h

/-- The user waits, and the sweeper does what a schedule of sweeps does. -/
theorem Mirrors.waitUntil {ticks : Option Beat} (hb : ∀ b ∈ ticks, b.Drives uptime plan.interval)
    (h : w.Mirrors uptime plan ticks s sweeping) (t : Nat) :
    (w.waitUntil t).Mirrors uptime plan ticks
      (s.swept plan.maxAge sweeping (ticksBetween ticks w.now t)).2
      (s.swept plan.maxAge sweeping (ticksBetween ticks w.now t)).1 := by
  by_cases ht : w.now < t
  · have hv := h.begun hb
    have hidle := w.sweeper_begun_ne_idle
    rw [waitUntil_of_lt ht, ← now_begun w]
    cases ticks with
    | some b =>
      have hle : w.begun.now ≤ t := by
        rw [now_begun]
        omega
      exact hv.sweepUntil (hb b rfl) hidle hle
    | none =>
      -- without ticks there is nothing that a sweeper could wait for
      have hstands := hv.stands
      rcases hsweeper : w.begun.sweeper with - | u | e
      · exact absurd hsweeper hidle
      · rw [hsweeper] at hstands
        obtain ⟨-, b, hb', -⟩ := hstands
        exact absurd hb' (by simp)
      · exact hv.sweepUntil_of_ended hsweeper t
  · have hnone : ticksBetween ticks w.now t = [] := by
      cases ticks with
      | none => rfl
      | some b => exact b.between_of_count_le (b.count_mono (Nat.not_lt.1 ht))
    rw [waitUntil_of_le (Nat.not_lt.1 ht), hnone]
    exact h

/-- The user acts in both alike. -/
theorem Mirrors.perform {ticks : Option Beat} (h : w.Mirrors uptime plan ticks s sweeping)
    (a : Action) :
    (w.perform a).2.Mirrors uptime plan ticks ((s.atTime w.now).perform a).2 sweeping ∧
      (w.perform a).1.seen = ((s.atTime w.now).perform a).1.seen := by
  have hperform : (w.perform a).2.session = ((s.atTime w.now).perform a).2 := by
    rw [← h.session_eq]
    rfl
  refine ⟨⟨h.plan_eq, h.uptime_eq, h.cancelled_eq, ?_, h.stands⟩, ?_⟩
  · rw [hperform]
    exact (s.atTime_perform w.now a).symm
  · rw [← h.session_eq]
    rfl

/-- The order to stop leaves the registry as it is, and a sweeper that has not failed ends well. -/
theorem Mirrors.finish {ticks : Option Beat} (hb : ∀ b ∈ ticks, b.Drives uptime plan.interval)
    (h : w.Mirrors uptime plan ticks s sweeping) (t : Nat) :
    ((w.finish t).1 = .completed ↔
        (s.swept plan.maxAge sweeping (ticksBetween ticks w.now t)).1 = true) ∧
      (w.finish t).2.session.node.registry =
        (s.swept plan.maxAge sweeping (ticksBetween ticks w.now t)).2.node.registry := by
  obtain ⟨-, -, -, hsession, hstands⟩ := h.waitUntil hb t
  refine ⟨?_, ?_⟩
  · rcases hv : (w.waitUntil t).sweeper with - | u | e <;> rw [hv] at hstands
    · simp [Watch.finish, hv, hstands.1]
    · simp [Watch.finish, hv, hstands.1]
    · simp only [Watch.finish, hv]
      exact hstands.1
  · rw [session_finish, hsession, Session.registry_atTime]

/-- The user's timeline and the end of the run agree with the schedule. -/
theorem Mirrors.agrees {ticks : Option Beat} (hb : ∀ b ∈ ticks, b.Drives uptime plan.interval)
    (h : w.Mirrors uptime plan ticks s sweeping) (timeline : List (Nat × Action)) (stopAt : Nat) :
    let plain := s.follow plan.maxAge sweeping
      (interleave (ticksBetween ticks) w.now stopAt timeline)
    (w.run timeline).1.map Step.seen = plain.1.map Step.seen ∧
      (((w.run timeline).2.finish stopAt).1 = .completed ↔ plain.2.1 = true) ∧
      ((w.run timeline).2.finish stopAt).2.session.node.registry = plain.2.2.node.registry := by
  induction timeline generalizing w s sweeping with
  | nil =>
    obtain ⟨hcompleted, hregistry⟩ := h.finish hb stopAt
    rw [interleave, Session.follow_sweepsAt]
    exact ⟨rfl, hcompleted, hregistry⟩
  | cons entry rest ih =>
    obtain ⟨t, a⟩ := entry
    -- a wait, an action, and the rest from the time at which the action is carried out
    have hwait := h.waitUntil hb t
    obtain ⟨hnext, hseen⟩ := hwait.perform a
    have hnow : ((w.waitUntil t).perform a).2.now = max w.now t := w.now_waitUntil t
    have hrest := ih hnext
    rw [hnow] at hrest
    rw [now_waitUntil] at hseen hrest
    obtain ⟨hsteps, hcompleted, hregistry⟩ := hrest
    rw [interleave, Session.follow_sweepsAt_append, Session.follow_act]
    refine ⟨?_, hcompleted, hregistry⟩
    show ((w.waitUntil t).perform a).1.seen ::
      (((w.waitUntil t).perform a).2.run rest).1.map Step.seen = _ :: _
    rw [hseen, hsteps]

end Watch

end Presence
