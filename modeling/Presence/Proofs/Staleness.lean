/-
Presence/Proofs/Staleness.lean

How old a peer can get while a sweeper is at work.

On a clock that nobody touches, a peer that is tracked at a time `t` was last
seen at `t - A - I` or later, where `A` is the age that is swept and `I` the
interval.  The last sweep has left nobody older than `A`, and it was not longer
ago than `I`.  Between sweeps the bound is

    base + b.time (b.count t) - I - A,

an interval and an age before the *next* sweep; it stays put while the user acts
and moves on with every tick (`Beat.bounds_nextSweep`).  That a sweep never drops
a peer seen within the age before it is the same argument with a bound that does
not move at all, the time at which the peer was seen (`Beat.bounds_const`).

`Watch.Keeps` is the invariant for both: what is known of a peer was noted since
the bound that belongs to the present tick.
-/
import Presence.Proofs.Freshness
import Presence.Proofs.Moments
import Presence.Proofs.SweepTimes

namespace Presence

/-! ### A clock that nobody touches -/

namespace Session

/-- The clock shows the time that has elapsed on top of this one, and readings do not move it. -/
def Steady (base : Int) (s : Session) : Prop :=
  s.node.clock.base = base ∧ s.node.clock.step = 0

variable {base : Int} {s : Session}

theorem Steady.nanos_atTime (h : s.Steady base) (t : Nat) :
    (s.atTime t).node.clock.nanos = base + t := by
  rw [← h.1]
  rfl

theorem Steady.readable (h : s.Steady base) (hbase : 0 ≤ base) {t : Nat}
    (hlatest : base + t ≤ Instant.latest.toNanos) : (s.atTime t).node.clock.Readable := by
  have hnanos := h.nanos_atTime t
  exact ⟨by omega, by omega⟩

theorem Steady.perform (h : s.Steady base) {a : Action} (ha : a.LeavesClock) :
    (s.perform a).2.Steady base := by
  unfold Steady
  rw [s.clock_perform_of_steady h.2 ha]
  exact h

theorem Steady.atTime (h : s.Steady base) (t : Nat) : (s.atTime t).Steady base := h

theorem SeenSince.atTime {id : String} {bound : Int} (h : s.SeenSince id bound) (t : Nat) :
    (s.atTime t).SeenSince id bound := h

end Session

/-! ### Bounds that move with the ticks -/

/-- A bound for every number of sweeps: a sweep moves it no further than to the age before the
sweep, and from a time on it never runs ahead of the clock. -/
structure Beat.Bounds (b : Beat) (base : Int) (maxAge : Age) (since : Nat) (f : Nat → Int) :
    Prop where
  succ_le : ∀ k, f (k + 1) ≤ max (f k) (base + b.time k - maxAge.toNanos)
  count_le : ∀ t, since ≤ t → f (b.count t) ≤ base + t

namespace Beat

variable (b : Beat) (base : Int) (maxAge : Age)

theorem bounds_const (since : Nat) : b.Bounds base maxAge since fun _ => base + since where
  succ_le k := by omega
  count_le t ht := by omega

/-- The time of the next sweep is not further away than the interval. -/
theorem time_count_le {n : Nat} (hfirst : b.first ≤ n) (hgap : b.gap ≤ n) (t : Nat) :
    b.time (b.count t) ≤ t + n := by
  rcases hcount : b.count t with - | k
  · rw [time]
    omega
  · -- the last tick has come, and the next is a gap behind it
    have hlast : b.time k ≤ t := b.lt_count_iff.1 (by omega)
    rw [time_succ]
    omega

/-- The bound that lies an interval and an age before the next sweep. -/
theorem bounds_nextSweep {n : Nat} (hfirst : b.first ≤ n) (hgap : b.gap ≤ n) :
    b.Bounds base maxAge 0 fun k => base + b.time k - n - maxAge.toNanos where
  succ_le k := by
    rw [b.time_succ]
    omega
  count_le t _ := by
    have := b.time_count_le hfirst hgap t
    omega

end Beat

/-! ### What a run keeps -/

variable {uptime : Nat} {plan : SweepPlan} {b : Beat} {base : Int} {id : String} {f : Nat → Int}
  {since : Nat}

/-- Sweeps on the beat move the bound on. -/
theorem Session.SeenSince.swept {s : Session} {now limit : Nat}
    (hf : b.Bounds base plan.maxAge since f) (hage : plan.maxAge.Ordinary) (hbase : 0 ≤ base)
    (hlatest : base + limit ≤ Instant.latest.toNanos) (hsteady : s.Steady base)
    (h : s.SeenSince id (f (b.count now))) (hnow : now ≤ limit) :
    (s.swept plan.maxAge true (b.between now limit)).1 = true ∧
      (s.swept plan.maxAge true (b.between now limit)).2.Steady base ∧
      (s.swept plan.maxAge true (b.between now limit)).2.SeenSince id (f (b.count limit)) := by
  -- by induction on the number of ticks that are still to come
  induction hn : b.count limit - b.count now generalizing s now with
  | zero =>
    have hmono := b.count_mono hnow
    have hcount : b.count limit = b.count now := by omega
    rw [b.between_of_count_le (Nat.le_of_eq hcount), swept_nil, hcount]
    exact ⟨rfl, hsteady, h⟩
  | succ n ih =>
    have hlt : b.count now < b.count limit := by omega
    have hle : b.time (b.count now) ≤ limit := b.lt_count_iff.1 hlt
    have hread : (s.atTime (b.time (b.count now))).node.clock.Readable :=
      hsteady.readable hbase (by omega)
    have hsound := ((s.atTime (b.time (b.count now))).isOk_sweep_iff plan.maxAge).2 hread
    rw [b.between_of_count_lt hlt, swept_cons, hsound]
    have hleaves : (Action.sweep plan.maxAge).LeavesClock := trivial
    refine ih ((hsteady.atTime _).perform hleaves) ?_ hle ?_
    · rw [b.count_time]
      refine ((h.atTime _).sweep hread hage).mono ?_
      rw [hsteady.nanos_atTime]
      exact hf.succ_le _
    · rw [b.count_time]
      omega

namespace Watch

/-- The run mirrors a session on a clock that nobody touches, and what is known of the peer was
noted since the bound that belongs to the next tick. -/
structure Keeps (uptime : Nat) (plan : SweepPlan) (b : Beat) (base : Int) (id : String)
    (f : Nat → Int) (w : Watch) (s : Session) : Prop where
  mirrors : w.Mirrors uptime plan (some b) s true
  steady : s.Steady base
  seen : s.SeenSince id (f (b.count w.now))

variable {w : Watch} {s : Session}

section

variable (hb : b.Drives uptime plan.interval) (hf : b.Bounds base plan.maxAge since f)
  (hage : plan.maxAge.Ordinary) (hbase : 0 ≤ base)

include hb hf hage hbase

theorem Keeps.waitUntil (h : w.Keeps uptime plan b base id f s) {t : Nat}
    (hlatest : base + t ≤ Instant.latest.toNanos) :
    ∃ s', (w.waitUntil t).Keeps uptime plan b base id f s' := by
  have hdrives : ∀ b' ∈ some b, b'.Drives uptime plan.interval := by
    rintro b' ⟨⟩
    exact hb
  have hwait := h.mirrors.waitUntil hdrives t
  rcases Nat.le_total w.now t with ht | ht
  · obtain ⟨hsound, hsteady, hseen⟩ :=
      h.seen.swept hf hage hbase hlatest h.steady ht
    rw [ticksBetween, hsound] at hwait
    refine ⟨_, hwait, hsteady, ?_⟩
    rw [now_waitUntil, Nat.max_eq_right ht]
    exact hseen
  · rw [waitUntil_of_le ht]
    exact ⟨s, h⟩

omit hb hage hbase in
theorem Keeps.perform (h : w.Keeps uptime plan b base id f s) (hsince : since ≤ w.now) {a : Action}
    (ha : a.LeavesClock) :
    (w.perform a).2.Keeps uptime plan b base id f ((s.atTime w.now).perform a).2 := by
  refine ⟨(h.mirrors.perform a).1, (h.steady.atTime w.now).perform ha, ?_⟩
  refine (h.seen.atTime w.now).perform ?_ a
  rw [h.steady.nanos_atTime]
  exact hf.count_le w.now hsince

/-- All actions of a timeline keep what was noted since the bound. -/
theorem Keeps.run {limit : Nat} (hlatest : base + limit ≤ Instant.latest.toNanos)
    (timeline : List (Nat × Action)) (hleaves : ∀ e ∈ timeline, e.2.LeavesClock)
    (hlimit : ∀ e ∈ timeline, e.1 ≤ limit) (h : w.Keeps uptime plan b base id f s)
    (hsince : since ≤ w.now) : ∃ s', (w.run timeline).2.Keeps uptime plan b base id f s' := by
  induction timeline generalizing w s with
  | nil => exact ⟨s, h⟩
  | cons e rest ih =>
    obtain ⟨t, a⟩ := e
    obtain ⟨ha, hleaves'⟩ := List.forall_mem_cons.1 hleaves
    obtain ⟨ht, hlimit'⟩ := List.forall_mem_cons.1 hlimit
    have hlatest' : base + t ≤ Instant.latest.toNanos := by omega
    obtain ⟨s₁, h₁⟩ := h.waitUntil hb hf hage hbase hlatest'
    have hsince₁ : since ≤ (w.waitUntil t).now := by
      rw [now_waitUntil]
      omega
    exact ih hleaves' hlimit' (h₁.perform hf hsince₁ ha) hsince₁

end

end Watch

/-- The times at which the actions of a timeline see a peer. -/
def sightings (id : String) (now : Nat) : List (Nat × Action) → List Nat
  | [] => []
  | (t, a) :: rest => (if a.sees id then [max now t] else []) ++ sightings id (max now t) rest

namespace Watch

variable {w : Watch} {s : Session}

/-- Once a timeline has seen a peer, the peer is not tracked, or was seen then or later. -/
theorem Keeps.sighted (hb : b.Drives uptime plan.interval) (hf : b.Bounds base plan.maxAge since f)
    (hage : plan.maxAge.Ordinary) (hbase : 0 ≤ base) {limit : Nat}
    (hlatest : base + limit ≤ Instant.latest.toNanos) (timeline : List (Nat × Action))
    (hleaves : ∀ e ∈ timeline, e.2.LeavesClock) (hlimit : ∀ e ∈ timeline, e.1 ≤ limit)
    (h : w.Keeps uptime plan b base id f s) (hsince : since ≤ w.now) (hnow : w.now ≤ limit)
    {u : Nat} (hu : u ∈ sightings id w.now timeline) :
    ∃ s', (w.run timeline).2.Keeps uptime plan b base id (fun _ => base + u) s' := by
  induction timeline generalizing w s with
  | nil => simp [sightings] at hu
  | cons e rest ih =>
    obtain ⟨t, a⟩ := e
    obtain ⟨ha, hleaves'⟩ := List.forall_mem_cons.1 hleaves
    obtain ⟨ht, hlimit'⟩ := List.forall_mem_cons.1 hlimit
    have hlatest' : base + t ≤ Instant.latest.toNanos := by omega
    obtain ⟨s₁, h₁⟩ := h.waitUntil hb hf hage hbase hlatest'
    have hnow₁ : (w.waitUntil t).now = max w.now t := w.now_waitUntil t
    have hsince₁ : since ≤ (w.waitUntil t).now := by omega
    have h₂ := h₁.perform hf hsince₁ ha
    rcases List.mem_append.1 hu with hu | hu
    · -- the action that sees the peer: from here on the bound does not move
      obtain ⟨hsees, rfl⟩ : a.sees id = true ∧ u = max w.now t := by
        by_cases hsees : a.sees id = true <;> simp_all
      have hlatest₁ : base + (w.waitUntil t).now ≤ Instant.latest.toNanos := by omega
      have hread := h₁.steady.readable hbase hlatest₁
      have hnanos : (s₁.atTime (w.waitUntil t).now).node.clock.nanos =
          base + (max w.now t : Nat) := by
        rw [h₁.steady.nanos_atTime, hnow₁]
      have hseen := Session.seenSince_perform_of_sees hread hsees
      rw [hnanos] at hseen
      have h₃ : ((w.waitUntil t).perform a).2.Keeps uptime plan b base id
          (fun _ => base + (max w.now t : Nat)) _ := ⟨h₂.mirrors, h₂.steady, hseen⟩
      exact h₃.run hb (b.bounds_const base plan.maxAge _) hage hbase hlatest rest hleaves' hlimit'
        (Nat.le_of_eq hnow₁.symm)
    · have hnow₂ : ((w.waitUntil t).perform a).2.now ≤ limit := by
        show (w.waitUntil t).now ≤ limit
        omega
      rw [← hnow₁] at hu
      exact ih hleaves' hlimit' h₂ hsince₁ hnow₂ hu

end Watch

/-! ### From the start to any moment -/

theorem Session.Steady.run {s : Session} (h : s.Steady base) (actions : List Action)
    (hleaves : ∀ a ∈ actions, a.LeavesClock) : (s.run actions).2.Steady base := by
  induction actions generalizing s with
  | nil => exact h
  | cons a rest ih =>
    obtain ⟨ha, hleaves'⟩ := List.forall_mem_cons.1 hleaves
    exact ih (h.perform ha) hleaves'

theorem Session.SeenSince.run {s : Session} (hsteady : s.Steady base) (actions : List Action)
    (hleaves : ∀ a ∈ actions, a.LeavesClock) (h : s.SeenSince id base) :
    (s.run actions).2.SeenSince id base := by
  induction actions generalizing s with
  | nil => exact h
  | cons a rest ih =>
    obtain ⟨ha, hleaves'⟩ := List.forall_mem_cons.1 hleaves
    have hbound : base ≤ s.node.clock.nanos := by
      rw [Clock.nanos, hsteady.1]
      omega
    exact ih (hsteady.perform ha) hleaves' (h.perform hbound a)

theorem Watch.keeps_start {before : List Action} (hleaves : ∀ a ∈ before, a.LeavesClock)
    (hf : f 0 ≤ base) :
    ({ plan, uptime, cancelled := false
       session := ((Session.start ⟨base, 0, 0⟩).run before).2 } : Watch).Keeps uptime plan b base
      id f ((Session.start ⟨base, 0, 0⟩).run before).2 := by
  have hsteady : (Session.start ⟨base, 0, 0⟩).Steady base := ⟨rfl, rfl⟩
  have helapsed : ((Session.start ⟨base, 0, 0⟩).run before).2.node.clock.elapsed = 0 :=
    Session.elapsed_run _ before
  refine ⟨Watch.mirrors_start (some b) helapsed, hsteady.run before hleaves, ?_⟩
  show Session.SeenSince id (f (b.count 0)) _
  rw [b.count_zero]
  exact ((Session.seenSince_start _).run hsteady before hleaves).mono hf

theorem eq_zero_or_mem_sightings (before : List Action) (timeline : List (Nat × Action)) {u : Nat}
    (hu : u ∈ sightings id 0 (before.map (fun a => (0, a)) ++ timeline)) :
    u = 0 ∨ u ∈ sightings id 0 timeline := by
  induction before with
  | nil => exact Or.inr hu
  | cons a rest ih =>
    rcases List.mem_append.1 hu with hu | hu
    · refine Or.inl ?_
      by_cases hsees : a.sees id = true <;> simp_all
    · exact ih hu

section

variable {before : List Action} {timeline : List (Nat × Action)} {t : Nat}

/-- What a run up to a moment keeps, from the start on or from a sighting on. -/
theorem Watch.keeps_watchUntil (id : String) (hb : b.Drives uptime plan.interval)
    (hage : plan.maxAge.Ordinary) (hbefore : ∀ a ∈ before, a.LeavesClock)
    (htimeline : ∀ e ∈ timeline, e.2.LeavesClock)
    (hbase : 0 ≤ base) (hlatest : base + t ≤ Instant.latest.toNanos) :
    (∀ f, b.Bounds base plan.maxAge 0 f →
      ∃ s, (watchUntil uptime plan ⟨base, 0, 0⟩ before timeline t).Keeps uptime plan b base id
        f s) ∧
      ∀ u ∈ sightings id 0
          (before.map (fun a => (0, a)) ++ timeline.takeWhile fun e => e.1 ≤ t),
        ∃ s, (watchUntil uptime plan ⟨base, 0, 0⟩ before timeline t).Keeps uptime plan b base id
          (fun _ => base + u) s := by
  have hleaves : ∀ e ∈ timeline.takeWhile (fun e => e.1 ≤ t), e.2.LeavesClock := by
    intro e he
    exact htimeline e (List.takeWhile_subset _ he)
  have hlimit : ∀ e ∈ timeline.takeWhile (fun e => e.1 ≤ t), e.1 ≤ t := by
    intro e he
    simpa using List.mem_takeWhile_imp he
  have hall : ∀ f, b.Bounds base plan.maxAge 0 f →
      ∃ s, (watchUntil uptime plan ⟨base, 0, 0⟩ before timeline t).Keeps uptime plan b base id
        f s := by
    intro f hf
    have hzero : f 0 ≤ base := by
      have := hf.count_le 0 (Nat.le_refl 0)
      rw [b.count_zero] at this
      omega
    obtain ⟨s, hs⟩ := (Watch.keeps_start hbefore hzero).run hb hf hage hbase hlatest _ hleaves
      hlimit (Nat.zero_le _)
    exact hs.waitUntil hb hf hage hbase hlatest
  refine ⟨hall, ?_⟩
  intro u hu
  have hconst := b.bounds_const base plan.maxAge 0
  rcases eq_zero_or_mem_sightings before _ hu with rfl | hu
  · exact hall _ hconst
  · -- from the sighting on the bound is its time
    obtain ⟨s, hs⟩ := (Watch.keeps_start hbefore (by omega)).sighted hb hconst hage hbase hlatest _
      hleaves hlimit (Nat.zero_le _) (Nat.zero_le _) hu
    exact hs.waitUntil hb (b.bounds_const base plan.maxAge u) hage hbase hlatest

end

/-! ### The tick ahead -/

namespace Watch

variable {w : Watch} {s : Session}

theorem Mirrors.next_tick (hb : b.Drives uptime plan.interval)
    (h : w.Mirrors uptime plan (some b) s true) (hnow : 0 < w.now) :
    ∃ tick, w.sweeper = .waiting tick ∧ tick.arrival w.now = b.time (b.count w.now) := by
  have hstands := h.stands
  rcases hw : w.sweeper with - | tick | e <;> rw [hw] at hstands
  · have hzero := hstands.2
    omega
  · obtain ⟨-, b', hb', -, hdue⟩ := hstands
    obtain rfl := Option.some.inj hb'
    have harrival := Ticker.arrival_eq_due (hdue ▸ hb.milli_time _)
      (hdue ▸ Nat.le_of_lt (b.lt_time_count w.now))
    exact ⟨tick, rfl, harrival.trans hdue⟩
  · exact absurd (hstands.2 rfl) (by simp)

/-- A tracked peer was seen since the bound. -/
theorem Keeps.le_lastSeen (h : w.Keeps uptime plan b base id f s) {x : Sighting}
    (hx : w.session.node.registry.get? id = some x) : f (b.count w.now) ≤ x.lastSeen.toNanos := by
  rw [h.mirrors.session_eq, Session.registry_atTime] at hx
  exact (h.seen x hx).2

/-- A sweep keeps a tracked peer as it is, or drops it for its age. -/
theorem Keeps.sweepNow_cases (h : w.Keeps uptime plan b base id f s) (hage : plan.maxAge.Ordinary)
    (hbase : 0 ≤ base) {d : Nat} (hlatest : base + d ≤ Instant.latest.toNanos) (tick : Ticker)
    {x : Sighting} (hx : w.session.node.registry.get? id = some x) :
    ((w.atTime d).sweepNow tick).session.node.registry.get? id = some x ∧
        base + d - x.lastSeen.toNanos ≤ plan.maxAge.toNanos ∨
      ((w.atTime d).sweepNow tick).session.node.registry.get? id = none ∧
        plan.maxAge.toNanos < base + d - x.lastSeen.toNanos := by
  have hsession : (w.atTime d).session = s.atTime d := by
    show w.session.atTime d = _
    rw [h.mirrors.session_eq, Session.atTime_atTime]
  have hplan : (w.atTime d).plan = plan := h.mirrors.plan_eq
  have hknown : (s.atTime d).node.registry.get? id = some x := by
    rw [h.mirrors.session_eq] at hx
    exact hx
  have hread := h.steady.readable hbase hlatest
  have hswept : ∀ y, ((w.atTime d).sweepNow tick).session.node.registry.get? id = some y ↔
      (s.atTime d).node.registry.get? id = some y ∧
        base + d - y.lastSeen.toNanos ≤ plan.maxAge.toNanos := by
    intro y
    rw [session_sweepNow, hsession, hplan,
      Session.get?_perform_sweep (h.seen.atTime d) hread hage, h.steady.nanos_atTime]
  by_cases hyoung : base + d - x.lastSeen.toNanos ≤ plan.maxAge.toNanos
  · exact Or.inl ⟨(hswept x).2 ⟨hknown, hyoung⟩, hyoung⟩
  · refine Or.inr ⟨?_, Int.not_le.1 hyoung⟩
    rcases hy : ((w.atTime d).sweepNow tick).session.node.registry.get? id with - | y
    · rfl
    · -- whoever is left after the sweep was there before it
      obtain ⟨hbefore, hold⟩ := (hswept y).1 hy
      obtain rfl := Option.some.inj (hknown.symm.trans hbefore)
      exact absurd hold hyoung

end Watch

/-- **Nobody gets older than an age and an interval.**  On a clock that nobody touches a sweeper
keeps the age of every tracked peer within the age that is swept and one interval, at every moment
and right before every sweep.  A sweep drops a peer only if the peer is older than the age, and
then whatever has seen the peer lies further back than the age. -/
theorem staleness_bounded (uptime : Nat) (plan : SweepPlan) (hage : plan.maxAge.Ordinary)
    (hpos : 0 < plan.interval.toNanos) (hmilli : nanosPerMilli ∣ plan.interval.toNanos)
    (hreach : plan.interval.toNanos ≤ lastMoment uptime) (before : List Action)
    (hbefore : ∀ a ∈ before, a.LeavesClock) (timeline : List (Nat × Action))
    (htimeline : ∀ e ∈ timeline, e.2.LeavesClock) (base : Int) (hbase : 0 ≤ base) (t : Nat)
    (hlatest : base + t ≤ Instant.latest.toNanos) :
    let w := watchUntil uptime plan ⟨base, 0, 0⟩ before timeline t
    let tracked := w.session.node.registry
    w.now = t ∧
      (∀ id x, tracked.get? id = some x →
        base + t - x.lastSeen.toNanos ≤ plan.maxAge.toNanos + plan.interval.toNanos) ∧
      (0 < t → ∃ tick, w.sweeper = .waiting tick ∧
        t < tick.arrival t ∧ tick.arrival t ≤ t + plan.interval.toNanos ∧
        (base + tick.arrival t ≤ Instant.latest.toNanos →
          let swept := ((w.atTime (tick.arrival t)).sweepNow tick).session.node.registry
          ∀ id x, tracked.get? id = some x →
            base + tick.arrival t - x.lastSeen.toNanos ≤
                plan.maxAge.toNanos + plan.interval.toNanos ∧
              (swept.get? id = some x ∧
                  base + tick.arrival t - x.lastSeen.toNanos ≤ plan.maxAge.toNanos ∨
                swept.get? id = none ∧
                  plan.maxAge.toNanos < base + tick.arrival t - x.lastSeen.toNanos ∧
                  ∀ u ∈ sightings id 0
                      (before.map (fun a => (0, a)) ++ timeline.takeWhile fun e => e.1 ≤ t),
                    u + plan.maxAge.toNanos < tick.arrival t))) := by
  intro w tracked
  let b := Beat.ofInterval plan.interval hpos
  have hb : b.Drives uptime plan.interval := Beat.drives_ofInterval hmilli hreach
  have hgap : b.gap ≤ plan.interval.toNanos := Nat.min_le_left _ _
  have hfirst : b.first ≤ plan.interval.toNanos := Nat.le_refl _
  have hkept := fun id => Watch.keeps_watchUntil id hb hage hbefore htimeline hbase hlatest
  have hnow : w.now = t := now_watchUntil uptime plan _ before timeline t
  have hlater : t < b.time (b.count t) := b.lt_time_count t
  have hahead : b.time (b.count t) ≤ t + plan.interval.toNanos := b.time_count_le hfirst hgap t
  -- the bound for every tracked peer lies an interval and an age before the tick ahead
  have hbound : ∀ id x, tracked.get? id = some x →
      base + b.time (b.count t) - plan.interval.toNanos - plan.maxAge.toNanos ≤
        x.lastSeen.toNanos := by
    intro id x hx
    obtain ⟨s, hs⟩ := (hkept id).1 _ (b.bounds_nextSweep base plan.maxAge hfirst hgap)
    have hle := hs.le_lastSeen hx
    rwa [hnow] at hle
  refine ⟨hnow, ?_, ?_⟩
  · intro id x hx
    have hle := hbound id x hx
    omega
  · intro ht
    have hbegun : 0 < w.now := by omega
    obtain ⟨s, hs⟩ := (hkept "").1 _ (b.bounds_const base plan.maxAge 0)
    obtain ⟨tick, htick, harrival⟩ := hs.mirrors.next_tick hb hbegun
    rw [hnow] at harrival
    refine ⟨tick, htick, ?_⟩
    rw [harrival]
    refine ⟨hlater, hahead, ?_⟩
    intro hread swept id x hx
    refine ⟨?_, ?_⟩
    · have hle := hbound id x hx
      omega
    · obtain ⟨s', hs'⟩ := (hkept id).1 _ (b.bounds_const base plan.maxAge 0)
      refine (hs'.sweepNow_cases hage hbase hread tick hx).imp_right ?_
      rintro ⟨hgone, hold⟩
      refine ⟨hgone, hold, ?_⟩
      -- whatever has seen the peer would have moved its time behind the age
      intro u hu
      obtain ⟨s'', hs''⟩ := (hkept id).2 u hu
      have hle : base + u ≤ x.lastSeen.toNanos := hs''.le_lastSeen hx
      omega

/-- When the tick is due for which the sweeper waits. -/
def Sweeper.due? : Sweeper → Option Nat
  | .waiting t => some t.due
  | .idle | .ended _ => none

/-- Two peers eighty seconds after the start, with sweeps of an age of one minute every half minute.
The next sweep comes ten seconds later.  It drops the peer that was touched at ten seconds, which is
eighty seconds old by then, and keeps the one that was upserted at forty. -/
theorem staleness_bounded_half_minute :
    let plan : SweepPlan := ⟨Age.ofSeconds 60, Age.ofSeconds 30⟩
    let w := watchUntil (3600 * nanosPerSecond) plan ⟨1700000000000000000, 0, 0⟩ [.upsert "a" "x"]
      [(10000000000, .touch "a"), (40000000000, .upsert "b" "y")] 80000000000
    let a : Sighting := ⟨"x", ⟨1700000010, 0⟩⟩
    let b : Sighting := ⟨"y", ⟨1700000040, 0⟩⟩
    w.now = 80000000000 ∧ w.session.node.registry.size = 2 ∧
      w.session.node.registry.get? "a" = some a ∧ w.session.node.registry.get? "b" = some b ∧
      1700000080000000000 - a.lastSeen.toNanos ≤ plan.maxAge.toNanos + plan.interval.toNanos ∧
      ∃ tick, w.sweeper = .waiting tick ∧ tick.arrival 80000000000 = 90000000000 ∧
        let swept := ((w.atTime 90000000000).sweepNow tick).session.node.registry
        swept.get? "a" = none ∧ plan.maxAge.toNanos < 1700000090000000000 - a.lastSeen.toNanos ∧
          swept.get? "b" = some b ∧
          1700000090000000000 - b.lastSeen.toNanos ≤ plan.maxAge.toNanos := by
  intro plan w a b
  have hage : plan.maxAge.Ordinary := by
    unfold Age.Ordinary
    decide
  obtain ⟨hnow, hbound, hahead⟩ := staleness_bounded (3600 * nanosPerSecond) plan hage (by decide)
    (by decide) (by decide) [.upsert "a" "x"] (by simp [Action.LeavesClock])
    [(10000000000, .touch "a"), (40000000000, .upsert "b" "y")] (by simp [Action.LeavesClock])
    1700000000000000000 (by decide) 80000000000 (by decide)
  have hsize : w.session.node.registry.size = 2 := by decide +kernel
  have ha : w.session.node.registry.get? "a" = some a := by decide +kernel
  have hb : w.session.node.registry.get? "b" = some b := by decide +kernel
  refine ⟨hnow, hsize, ha, hb, hbound "a" a ha, ?_⟩
  obtain ⟨tick, htick, -, -, hswept⟩ := hahead (by decide)
  have hdue : w.sweeper.due? = some 90000000000 := by decide +kernel
  rw [htick] at hdue
  have hdue' : tick.due = 90000000000 := Option.some.inj hdue
  have harrival : tick.arrival 80000000000 = 90000000000 := by
    simp only [Ticker.arrival, hdue', nanosPerMilli]
    decide
  rw [harrival] at hswept
  have hcases := hswept (by decide)
  refine ⟨tick, htick, harrival, ?_⟩
  obtain ⟨-, ⟨-, hyoung⟩ | ⟨hgone, hold, -⟩⟩ := hcases "a" a ha
  · exact absurd hyoung (by decide)
  · obtain ⟨-, ⟨hkept, hyoung⟩ | ⟨-, hold', -⟩⟩ := hcases "b" b hb
    · exact ⟨hgone, hold, hkept, hyoung⟩
    · exact absurd hold' (by decide)

end Presence
