/-
Presence/Proofs/SweepTimes.lean

At which times a sweeper sweeps.

A sweeper asked for an interval `I` of whole milliseconds sweeps at

    I,  I + g,  I + 2 g,  ...        with  g = min I Ticker.longestGap,

and its run is the session with these sweeps between the actions
(`watch_agreesWith_beat`).  A sweeper that has been told to stop before the start
sweeps at no time, whatever it was asked for (`watch_agreesWith_none`).

The sweeps come at the multiples of `I`, as an interval promises, exactly if `I`
is not longer than the longest gap.  For a longer interval there is a stretch of
whole milliseconds with a sweep in it but without a multiple of `I`
(`Beat.exists_stretch`).  A clock that cannot be read during such a stretch, and
can be read at all multiples of `I` before, tells the two apart.
-/
import Presence.Proofs.SweeperRun
import Mathlib.Tactic.NormNum

namespace Presence

/-! ### Runs and plain sessions -/

/-- A run with a sweeper is what a plain session says: the user sees the same at every step, the
sweeper has done its work exactly if no sweep has broken off, and the same peers are tracked. -/
structure AgreesWith (run : List Step × TaskEnd × Watch) (plain : List Step × Bool × Session) :
    Prop where
  seen_eq : run.1.map Step.seen = plain.1.map Step.seen
  completed_iff : run.2.1 = .completed ↔ plain.2.1 = true
  registry_eq : run.2.2.session.node.registry = plain.2.2.node.registry

/-- The times at which a sweeper asked for an interval sweeps. -/
def Beat.ofInterval (interval : Age) (h : 0 < interval.toNanos) : Beat where
  first := interval.toNanos
  gap := min interval.toNanos Ticker.longestGap
  first_pos := h
  gap_pos := Ticker.gap_of_interval_pos interval h

variable {uptime : Nat} {interval : Age} {hpos : 0 < interval.toNanos}

theorem Beat.ofInterval_eq_every (h : interval.toNanos ≤ Ticker.longestGap) :
    ofInterval interval hpos = every interval.toNanos hpos := by
  unfold ofInterval every
  congr 1
  exact Nat.min_eq_left h

theorem milli_longestGap : nanosPerMilli ∣ Ticker.longestGap :=
  ⟨30 * 365 * 86400 * 1000, by norm_num [nanosPerMilli, Ticker.longestGap, nanosPerSecond]⟩

/-- A ticker keeps the beat of its interval. -/
theorem Beat.drives_ofInterval (hmilli : nanosPerMilli ∣ interval.toNanos)
    (hreach : interval.toNanos ≤ lastMoment uptime) :
    (ofInterval interval hpos).Drives uptime interval where
  start_eq := by
    have hin : ¬ lastMoment uptime < 0 + interval.toNanos := by omega
    unfold Ticker.start
    rw [dif_pos hpos, if_neg hin, Nat.zero_add]
    rfl
  milli_first := hmilli
  milli_gap := by
    show nanosPerMilli ∣ min interval.toNanos Ticker.longestGap
    rcases Nat.le_total interval.toNanos Ticker.longestGap with h | h
    · rwa [Nat.min_eq_left h]
    · rw [Nat.min_eq_right h]
      exact milli_longestGap

section

variable (uptime : Nat) (plan : SweepPlan) (base step : Int) (before : List Action)
  (timeline : List (Nat × Action)) (stopAt : Nat)

/-- A run with a sweeper that keeps to ticks, or to none, is a session with these sweeps. -/
theorem watch_agreesWith_ticksBetween {ticks : Option Beat}
    (hb : ∀ b ∈ ticks, b.Drives uptime plan.interval) :
    AgreesWith (watch uptime plan ticks.isNone ⟨base, step, 0⟩ before timeline stopAt)
      (sequential plan.maxAge (ticksBetween ticks) ⟨base, step, 0⟩ before timeline stopAt) := by
  let w : Watch :=
    { plan, uptime, cancelled := ticks.isNone
      session := ((Session.start ⟨base, step, 0⟩).run before).2 }
  have helapsed : ((Session.start ⟨base, step, 0⟩).run before).2.node.clock.elapsed = 0 :=
    Session.elapsed_run _ before
  have hstart : w.Mirrors uptime plan ticks ((Session.start ⟨base, step, 0⟩).run before).2 true :=
    Watch.mirrors_start ticks helapsed
  obtain ⟨hsteps, hcompleted, hregistry⟩ := hstart.agrees hb timeline stopAt
  refine ⟨?_, hcompleted, hregistry⟩
  show (((Session.start ⟨base, step, 0⟩).run before).1 ++ (w.run timeline).1).map Step.seen =
    (((Session.start ⟨base, step, 0⟩).run before).1 ++ _).map Step.seen
  rw [List.map_append, List.map_append, hsteps]

theorem watch_agreesWith_beat (hpos : 0 < plan.interval.toNanos)
    (hmilli : nanosPerMilli ∣ plan.interval.toNanos)
    (hreach : plan.interval.toNanos ≤ lastMoment uptime) :
    AgreesWith (watch uptime plan false ⟨base, step, 0⟩ before timeline stopAt)
      (sequential plan.maxAge (Beat.ofInterval plan.interval hpos).between ⟨base, step, 0⟩ before
        timeline stopAt) := by
  have hdrives : ∀ b ∈ some (Beat.ofInterval plan.interval hpos),
      b.Drives uptime plan.interval := by
    rintro b ⟨⟩
    exact Beat.drives_ofInterval hmilli hreach
  exact watch_agreesWith_ticksBetween uptime plan base step before timeline stopAt hdrives

theorem watch_agreesWith_none :
    AgreesWith (watch uptime plan true ⟨base, step, 0⟩ before timeline stopAt)
      (sequential plan.maxAge (fun _ _ => []) ⟨base, step, 0⟩ before timeline stopAt) := by
  have hnone : ∀ b ∈ (none : Option Beat), b.Drives uptime plan.interval := by simp
  exact watch_agreesWith_ticksBetween uptime plan base step before timeline stopAt hnone

end

/-! ### Whether sweeps go on -/

namespace Session

variable (s : Session) (maxAge : Age)

/-- As long as there are no sweeps, none breaks off. -/
theorem follow_without_ticks (now stopAt : Nat) (timeline : List (Nat × Action)) :
    (s.follow maxAge true (interleave (fun _ _ => []) now stopAt timeline)).2.1 = true := by
  induction timeline generalizing s now with
  | nil => rfl
  | cons entry rest ih =>
    obtain ⟨t, a⟩ := entry
    exact ih _ _

/-- While the clock can be read, sweeps go on. -/
theorem swept_of_readable (times : List Nat)
    (hread : ∀ t ∈ times, (s.atTime t).node.clock.Readable) (hstep : s.node.clock.step = 0) :
    (s.swept maxAge true times).1 = true := by
  induction times generalizing s with
  | nil => rfl
  | cons t rest ih =>
    have hleaves : (Action.sweep maxAge).LeavesClock := trivial
    have hclock : ((s.atTime t).perform (.sweep maxAge)).2.node.clock = (s.atTime t).node.clock :=
      (s.atTime t).clock_perform_of_steady hstep hleaves
    rw [swept_cons, (isOk_sweep_iff _ maxAge).2 (hread t List.mem_cons_self)]
    refine ih _ ?_ ?_
    · intro u hu
      -- a sweep leaves the clock as it is, apart from the time that elapses
      have hlater : (((s.atTime t).perform (.sweep maxAge)).2.atTime u).node.clock =
          (s.atTime u).node.clock := by
        show (((s.atTime t).perform (.sweep maxAge)).2.node.clock).atElapsed u = _
        rw [hclock]
        rfl
      rw [hlater]
      exact hread u (List.mem_cons_of_mem t hu)
    · rw [hclock]
      exact hstep

/-- A sweep at a time when the clock cannot be read is the last one. -/
theorem swept_of_unreadable (sweeping : Bool) {t : Nat} (times : List Nat)
    (hread : ¬ (s.atTime t).node.clock.Readable) :
    (s.swept maxAge sweeping (t :: times)).1 = false := by
  cases sweeping with
  | false => rw [swept_false]
  | true =>
    have hbroken : ((s.atTime t).perform (.sweep maxAge)).1.answer.isOk = false :=
      Bool.eq_false_iff.2 (mt (isOk_sweep_iff _ maxAge).1 hread)
    rw [swept_cons, hbroken, swept_false]

end Session

/-! ### Where a long interval shows -/

namespace Beat

/-- The user acts and stops at whole milliseconds, and never at a time of the beat. -/
def MissedBy (b : Beat) (timeline : List (Nat × Action)) (stopAt : Nat) : Prop :=
  ∀ t ∈ stopAt :: timeline.map Prod.fst, nanosPerMilli ∣ t ∧ ∀ k, t ≠ b.time k

variable (b : Beat) {k t u v : Nat}

theorem count_eq_succ (hlo : b.time k ≤ t) (hhi : t < b.time (k + 1)) : b.count t = k + 1 := by
  have h₁ := b.lt_count_iff.2 hlo
  have h₂ := b.count_le_iff.2 hhi
  omega

theorem ne_time (hlo : b.time k < t) (hhi : t < b.time (k + 1)) (j : Nat) : t ≠ b.time j := by
  rintro rfl
  have hcount := b.count_eq_succ (Nat.le_of_lt hlo) hhi
  rw [count_time] at hcount
  obtain rfl : j = k := by omega
  exact Nat.lt_irrefl _ hlo

/-- With an interval beyond the longest gap there is a stretch that a sweep falls into, but none of
the multiples of the interval. -/
theorem exists_stretch (hpos : 0 < interval.toNanos) (hmilli : nanosPerMilli ∣ interval.toNanos)
    (hlong : Ticker.longestGap < interval.toNanos) :
    ∃ u v k, nanosPerMilli ∣ u ∧ nanosPerMilli ∣ v ∧
      u ≤ interval.toNanos + Instant.latest.toNanos ∧
      (every interval.toNanos hpos).time k < u ∧
      v < (every interval.toNanos hpos).time (k + 1) ∧
      (ofInterval interval hpos).time k < u ∧
      u < (ofInterval interval hpos).time (k + 1) ∧
      (ofInterval interval hpos).time (k + 1) < v ∧
      v < (ofInterval interval hpos).time (k + 2) := by
  obtain ⟨i, hi⟩ := hmilli
  have hgap : (ofInterval interval hpos).gap = Ticker.longestGap :=
    Nat.min_eq_right (Nat.le_of_lt hlong)
  have hfirst : (ofInterval interval hpos).first = interval.toNanos := rfl
  have hlatest : Instant.latest.toNanos = 8210266876799999999999 := by decide
  have hcap : Ticker.longestGap = 946080000000000000 := by decide
  simp only [time, every, hgap, hfirst, hlatest, hcap, nanosPerMilli] at *
  rw [hi] at hlong ⊢
  by_cases hnear : i = 946080000001
  · -- one millisecond too long: the third sweep is the first that lies clear of the multiples
    exact ⟨1000000 * (2 * i + 1), 1000000 * (i + 2 * 946080000000 + 1), 1, ⟨_, rfl⟩, ⟨_, rfl⟩,
      by omega⟩
  · exact ⟨1000000 * (i + 1), 1000000 * (i + 946080000000 + 1), 0, ⟨_, rfl⟩, ⟨_, rfl⟩, by omega⟩

end Beat

/-- The clock is set while sweeps go on: whether they still go on at the end. -/
theorem sequential_setClock (maxAge : Age) (ticks : Nat → Nat → List Nat) (clock : Clock)
    (u v : Nat) (z : Int) :
    (sequential maxAge ticks clock [] [(u, .setClock z)] v).2.1 =
      (((((Session.start clock).swept maxAge true (ticks 0 u)).2.atTime u).perform
        (.setClock z)).2.swept maxAge ((Session.start clock).swept maxAge true (ticks 0 u)).1
          (ticks u v)).1 := by
  have hmax : max 0 u = u := Nat.zero_max u
  have hplain : (sequential maxAge ticks clock [] [(u, .setClock z)] v).2 =
      ((Session.start clock).follow maxAge true (interleave ticks 0 v [(u, .setClock z)])).2 := rfl
  rw [hplain, interleave, interleave, hmax, Session.follow_sweepsAt_append, Session.follow_act,
    Session.follow_sweepsAt]

section

variable (maxAge : Age) (b : Beat) {k u v : Nat}

/-- A clock set so that it cannot be read before `v` breaks off the sweep in a stretch. -/
theorem sequential_breaks_off (clock : Clock) (hlo : b.time k < u) (hmid : u < b.time (k + 1))
    (hhi : b.time (k + 1) < v) :
    (sequential maxAge b.between clock [] [(u, .setClock (-(v + 1)))] v).2.1 = false := by
  have hcount : b.count u = k + 1 := b.count_eq_succ (Nat.le_of_lt hlo) hmid
  have hticks : b.between u v = b.time (k + 1) :: b.between (b.time (k + 1)) v := by
    have hlt : b.count u < b.count v := by
      rw [hcount]
      exact b.lt_count_iff.2 (Nat.le_of_lt hhi)
    rw [b.between_of_count_lt hlt, hcount]
  -- the sweep in the stretch is the first one after the clock has been set
  rw [sequential_setClock, hticks]
  apply Session.swept_of_unreadable
  rintro ⟨hread, -⟩
  have hnanos : (0 : Int) ≤ -(v + 1) + (b.time (k + 1) : Nat) := hread
  omega

/-- The clock that cannot be read between two sweeps is never noticed. -/
theorem sequential_goes_on (z : Int) (hlo : b.time k < u) (huv : u ≤ v)
    (hhi : v < b.time (k + 1)) (hlatest : u ≤ b.first + Instant.latest.toNanos) :
    (sequential maxAge b.between ⟨-b.first, 0, 0⟩ [] [(u, .setClock z)] v).2.1 = true := by
  have hticks : b.between u v = [] := by
    apply b.between_of_count_le
    rw [b.count_eq_succ (Nat.le_of_lt hlo) (Nat.lt_of_le_of_lt huv hhi),
      b.count_eq_succ (Nat.le_trans (Nat.le_of_lt hlo) huv) hhi]
  -- all sweeps come before the clock is set, and then it can be read
  rw [sequential_setClock, hticks, Session.swept_nil]
  apply Session.swept_of_readable
  · intro t ht
    obtain ⟨-, htu, j, rfl⟩ := b.mem_between.1 ht
    have hfirst : b.first ≤ b.time j := Nat.le_add_right _ _
    show 0 ≤ -(b.first : Int) + (b.time j : Nat) ∧
      -(b.first : Int) + (b.time j : Nat) ≤ Instant.latest.toNanos
    omega
  · rfl

end

/-- For an interval beyond the longest gap, some run is not the session with sweeps at the
multiples of the interval. -/
theorem exists_not_agreesWith_every (hmilli : nanosPerMilli ∣ interval.toNanos)
    (hreach : interval.toNanos ≤ lastMoment uptime)
    (hlong : Ticker.longestGap < interval.toNanos) :
    ∃ base timeline stopAt,
      (Beat.every interval.toNanos hpos).MissedBy timeline stopAt ∧
        (Beat.ofInterval interval hpos).MissedBy timeline stopAt ∧
        ¬ AgreesWith (watch uptime ⟨⟨0, 0⟩, interval⟩ false ⟨base, 0, 0⟩ [] timeline stopAt)
          (sequential ⟨0, 0⟩ (Beat.every interval.toNanos hpos).between ⟨base, 0, 0⟩ [] timeline
            stopAt) := by
  obtain ⟨u, v, k, hu, hv, hlatest, hlo, hhi, hlo', hmid, hmid', hhi'⟩ :=
    Beat.exists_stretch hpos hmilli hlong
  have huv : u < v := hmid.trans hmid'
  have hmissed : ∀ b : Beat, (∀ j, u ≠ b.time j) → (∀ j, v ≠ b.time j) →
      b.MissedBy [(u, .setClock (-(v + 1)))] v := by
    intro b hub hvb t ht
    obtain rfl | rfl : t = v ∨ t = u := by simpa using ht
    · exact ⟨hv, hvb⟩
    · exact ⟨hu, hub⟩
  refine ⟨-interval.toNanos, [(u, .setClock (-(v + 1)))], v, ?_, ?_, ?_⟩
  · exact hmissed _ (Beat.ne_time _ hlo (huv.trans hhi)) (Beat.ne_time _ (hlo.trans huv) hhi)
  · exact hmissed _ (Beat.ne_time _ hlo' hmid) (Beat.ne_time _ hmid' hhi')
  -- the run is the session on its own beat, and there the clock breaks the sweep off
  intro hagrees
  have hrun := watch_agreesWith_beat uptime ⟨⟨0, 0⟩, interval⟩ (-interval.toNanos) 0 []
    [(u, .setClock (-(v + 1)))] v hpos hmilli hreach
  have hflags := hrun.completed_iff.symm.trans hagrees.completed_iff
  rw [sequential_breaks_off _ _ _ hlo' hmid hmid'] at hflags
  have hgoes := sequential_goes_on ⟨0, 0⟩ (Beat.every interval.toNanos hpos) (-(v + 1)) hlo
    (Nat.le_of_lt huv) hhi hlatest
  exact Bool.false_ne_true (hflags.2 hgoes)

/-! ### The agreement -/

/-- **A run with a sweeper is a plain session.**  An interval of whole milliseconds that is in
reach puts the sweeps at the times of its beat.  They come at the multiples of the interval, for
every run in which nobody acts at such a time, exactly if the interval is not beyond the longest
gap.  A sweeper that has been told to stop before the start never sweeps and ends well, whatever
its interval is. -/
theorem watch_agreesWith_sequential (hpos : 0 < interval.toNanos)
    (hmilli : nanosPerMilli ∣ interval.toNanos) (hreach : interval.toNanos ≤ lastMoment uptime) :
    (∀ maxAge base step before timeline stopAt,
      AgreesWith (watch uptime ⟨maxAge, interval⟩ false ⟨base, step, 0⟩ before timeline stopAt)
        (sequential maxAge (Beat.ofInterval interval hpos).between ⟨base, step, 0⟩ before timeline
          stopAt)) ∧
      ((∀ maxAge base step before timeline stopAt,
        (Beat.every interval.toNanos hpos).MissedBy timeline stopAt →
        (Beat.ofInterval interval hpos).MissedBy timeline stopAt →
        AgreesWith (watch uptime ⟨maxAge, interval⟩ false ⟨base, step, 0⟩ before timeline stopAt)
          (sequential maxAge (Beat.every interval.toNanos hpos).between ⟨base, step, 0⟩ before
            timeline stopAt)) ↔ interval.toNanos ≤ Ticker.longestGap) ∧
      ∀ uptime (plan : SweepPlan) base step before timeline stopAt,
        AgreesWith (watch uptime plan true ⟨base, step, 0⟩ before timeline stopAt)
            (sequential plan.maxAge (fun _ _ => []) ⟨base, step, 0⟩ before timeline stopAt) ∧
          (watch uptime plan true ⟨base, step, 0⟩ before timeline stopAt).2.1 = .completed := by
  refine ⟨?_, ⟨?_, ?_⟩, ?_⟩
  · intro maxAge base step before timeline stopAt
    exact watch_agreesWith_beat uptime ⟨maxAge, interval⟩ base step before timeline stopAt hpos
      hmilli hreach
  · -- an interval beyond the longest gap has a run that shows it
    intro hall
    by_contra hlong
    obtain ⟨base, timeline, stopAt, hevery, hbeat, hnot⟩ :=
      exists_not_agreesWith_every hmilli hreach (Nat.not_le.1 hlong)
    exact hnot (hall ⟨0, 0⟩ base 0 [] timeline stopAt hevery hbeat)
  · -- otherwise the beat is that of the multiples
    intro hshort maxAge base step before timeline stopAt _ _
    rw [← Beat.ofInterval_eq_every hshort]
    exact watch_agreesWith_beat uptime ⟨maxAge, interval⟩ base step before timeline stopAt hpos
      hmilli hreach
  · intro uptime plan base step before timeline stopAt
    have hagrees := watch_agreesWith_none uptime plan base step before timeline stopAt
    exact ⟨hagrees, hagrees.completed_iff.2 (Session.follow_without_ticks _ _ _ _ _)⟩

/-- Sweeps every thirty seconds, on a machine that had been up for an hour. -/
theorem watch_agreesWith_sequential_thirty_seconds :
    0 < (Age.ofSeconds 30).toNanos ∧ nanosPerMilli ∣ (Age.ofSeconds 30).toNanos ∧
      (Age.ofSeconds 30).toNanos ≤ lastMoment (3600 * nanosPerSecond) ∧
      ∀ maxAge base step before timeline stopAt,
        AgreesWith
          (watch (3600 * nanosPerSecond) ⟨maxAge, Age.ofSeconds 30⟩ false ⟨base, step, 0⟩ before
            timeline stopAt)
          (sequential maxAge (Beat.ofInterval (Age.ofSeconds 30) (by decide)).between
            ⟨base, step, 0⟩ before timeline stopAt) := by
  have hreach : (Age.ofSeconds 30).toNanos ≤ lastMoment (3600 * nanosPerSecond) := by decide
  exact ⟨by decide, by decide, hreach,
    (watch_agreesWith_sequential (by decide) (by decide) hreach).1⟩

/-- With an interval of thirty-one years the second sweep comes after sixty-one years, and drops a
peer that the sweep after sixty-two years would have dropped. -/
theorem not_agreesWith_thirty_one_years :
    ¬ AgreesWith
      (watch (3600 * nanosPerSecond) ⟨Age.ofSeconds 10, Age.ofSeconds 977616000⟩ false
        ⟨1700000000000000000, 0, 0⟩ [.upsert "a" "x"]
        [(1261440000000000000, .upsert "b" "y"), (1923696000007000000, .snapshot),
          (1955232000007000000, .snapshot)] 1986768000000000000)
      (sequential (Age.ofSeconds 10)
        (Beat.every (Age.ofSeconds 977616000).toNanos (by decide)).between
        ⟨1700000000000000000, 0, 0⟩ [.upsert "a" "x"]
        [(1261440000000000000, .upsert "b" "y"), (1923696000007000000, .snapshot),
          (1955232000007000000, .snapshot)] 1986768000000000000) := by
  intro h
  have hrun := watch_agreesWith_beat (3600 * nanosPerSecond)
    ⟨Age.ofSeconds 10, Age.ofSeconds 977616000⟩ 1700000000000000000 0 [.upsert "a" "x"]
    [(1261440000000000000, .upsert "b" "y"), (1923696000007000000, .snapshot),
      (1955232000007000000, .snapshot)] 1986768000000000000 (by decide) (by decide) (by decide)
  have hseen := congrArg (List.map Prod.snd) (hrun.seen_eq.symm.trans h.seen_eq)
  revert hseen
  decide +kernel

end Presence
