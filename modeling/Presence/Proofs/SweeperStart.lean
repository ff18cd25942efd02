/-
Presence/Proofs/SweeperStart.lean

Which command lines give a sweeper that works.

A command line is accepted if it can be read and its options make sense.  That
keeps out the interval zero, for which there are no ticks, but not the intervals
so long that the first tick is due beyond the end of time.  So the sweeper of an
accepted command line starts at a time `now` exactly if

    now + interval ≤ lastMoment uptime,

and then it goes on sweeping until it is told to stop, for as long as the clock
can be read; otherwise it has failed before its first sweep
(`sweeping_works_iff_in_reach`).  A program with such a sweeper ends by itself and
reports it (`Program.sweeperTask?_of_sweeping`).  The longest interval that can be written is out
of reach at every time (`not_starts_longest_interval`).
-/
import Presence.Program
import Presence.Proofs.SweeperFrame
import Presence.Proofs.Effect

namespace Presence

/-- The arguments are accepted and give these options, which ask for a sweeper. -/
structure Options.Sweeping (args : List String) (o : Options) : Prop where
  parse_eq : Options.parse args = .ok o
  accepted : o.refusal? = none
  enabled : o.noSweeper = false

theorem Options.Sweeping.interval_pos {args : List String} {o : Options} (h : Sweeping args o) :
    0 < o.interval.toNanos := by
  have haccepted := h.accepted
  simp only [refusal?, h.enabled] at haccepted
  have hpos : o.sweepInterval ≠ 0 := by simpa using haccepted
  simp only [interval, Age.ofSeconds, Age.toNanos, nanosPerSecond]
  omega

/-! ### Starting the ticks -/

namespace Ticker

variable {uptime : Nat} {interval : Age} {now : Nat}

theorem start_of_reach (hpos : 0 < interval.toNanos)
    (hreach : now + interval.toNanos ≤ lastMoment uptime) :
    ∃ t, start uptime interval now = .ok t := by
  rw [start, dif_pos hpos, if_neg (Nat.not_lt.2 hreach)]
  exact ⟨_, rfl⟩

theorem start_of_not_reach (hpos : 0 < interval.toNanos)
    (hreach : ¬ now + interval.toNanos ≤ lastMoment uptime) :
    start uptime interval now = .error .tickOutOfReach := by
  rw [start, dif_pos hpos, if_pos (Nat.not_le.1 hreach)]

/-- Between times there are ticks exactly if the first one is due before the end of time. -/
theorem start_iff (hpos : 0 < interval.toNanos) :
    (∃ t, start uptime interval now = .ok t) ↔ now + interval.toNanos ≤ lastMoment uptime := by
  by_cases hreach : now + interval.toNanos ≤ lastMoment uptime
  · exact iff_of_true (start_of_reach hpos hreach) hreach
  · simp [start_of_not_reach hpos hreach, hreach]

end Ticker

/-- No action changes by how much a reading moves the clock. -/
theorem Session.step_perform (s : Session) (a : Action) :
    (s.perform a).2.node.clock.step = s.node.clock.step := by
  rcases s.clock_perform a with h | h | ⟨t, -, h⟩ | ⟨d, -, h⟩ <;> rw [h] <;> rfl

namespace Watch

variable {w : Watch}

/-- The clock can be read at every time until the end, whatever the user does to it. -/
def AlwaysReadable (stopAt : Nat) : (w : Watch) → (timeline : List (Nat × Action)) → Prop
  | w, [] => ∀ u, w.now ≤ u → u ≤ stopAt → (w.session.node.clock.atElapsed u).Readable
  | w, (t, a) :: rest =>
    (∀ u, w.now ≤ u → u ≤ t → (w.session.node.clock.atElapsed u).Readable) ∧
      AlwaysReadable stopAt ((w.waitUntil t).perform a).2 rest

/-! ### A sweeper within reach -/

/-- The sweeper waits for its next tick, or will do so as soon as it begins; readings do not move
the clock. -/
structure Working (w : Watch) : Prop where
  cancelled_eq : w.cancelled = false
  step_eq : w.session.node.clock.step = 0
  stands : (∃ t, w.sweeper = .waiting t) ∨
    w.sweeper = .idle ∧ ∃ t, Ticker.start w.uptime w.plan.interval w.now = .ok t

/-- A sweeper that works and has begun waits for a tick. -/
theorem Working.begun (h : w.Working) : w.begun.Working ∧ ∃ t, w.begun.sweeper = .waiting t := by
  obtain ⟨t, ht⟩ | ⟨hidle, t, ht⟩ := h.stands
  · have hbegun : w.sweeper ≠ .idle := by simp [ht]
    rw [begun_of_ne_idle hbegun]
    exact ⟨h, t, ht⟩
  · have hbegun : w.begun = w.beginSweeper := by
      rw [Watch.begun]
      simp only [hidle]
    rw [hbegun, beginSweeper_of_start h.cancelled_eq ht]
    exact ⟨⟨h.cancelled_eq, h.step_eq, Or.inl ⟨t, rfl⟩⟩, t, rfl⟩

/-- A sweep for which the clock can be read. -/
theorem Working.sweepNow (h : w.Working) (hread : w.session.node.clock.Readable) (t : Ticker) :
    (w.sweepNow t).Working ∧ (w.sweepNow t).sweeper = .waiting (t.next w.now) ∧
      (w.sweepNow t).session.node.clock = w.session.node.clock := by
  have hok := (w.session.isOk_sweep_iff w.plan.maxAge).2 hread
  have hleaves : (Action.sweep w.plan.maxAge).LeavesClock := trivial
  have hclock := w.session.clock_perform_of_steady h.step_eq hleaves
  have hsweeper : (w.sweepNow t).sweeper = .waiting (t.next w.now) := by
    rw [sweeper_sweepNow_eq, if_pos hok]
  refine ⟨⟨?_, ?_, Or.inl ⟨_, hsweeper⟩⟩, hsweeper, ?_⟩
  · rw [cancelled_sweepNow]
    exact h.cancelled_eq
  · rw [session_sweepNow, hclock]
    exact h.step_eq
  · rw [session_sweepNow, hclock]

/-- A sweeper that waits sweeps at every tick and waits for the next one, while the clock can be
read. -/
theorem Working.sweepUntil (h : w.Working) {t : Ticker} (ht : w.sweeper = .waiting t) {limit : Nat}
    (hread : ∀ u, w.now ≤ u → u ≤ limit → (w.session.node.clock.atElapsed u).Readable) :
    (w.sweepUntil limit).Working ∧ ∃ t, (w.sweepUntil limit).sweeper = .waiting t := by
  fun_induction Watch.sweepUntil limit w generalizing t with
  | case1 w u hu harrival ih =>
    -- the tick comes, and the clock shows a time that can be read
    have hnow : w.now ≤ u.arrival w.now := Nat.le_max_left _ _
    have hat : (w.atTime (u.arrival w.now)).Working :=
      ⟨h.cancelled_eq, h.step_eq, Or.inl ⟨u, hu⟩⟩
    obtain ⟨hnext, hwaiting, hclock⟩ := hat.sweepNow (hread _ hnow harrival) u
    refine ih hnext hwaiting ?_
    intro v hv hlimit
    rw [hclock]
    rw [now_sweepNow, now_atTime] at hv
    exact hread v (Nat.le_trans hnow hv) hlimit
  | case2 w u hu harrival => exact ⟨h, u, hu⟩
  | case3 w hnone => exact absurd ht (hnone t)

theorem Working.waitUntil (h : w.Working) {t : Nat}
    (hread : ∀ u, w.now ≤ u → u ≤ t → (w.session.node.clock.atElapsed u).Readable) :
    (w.waitUntil t).Working := by
  rcases Nat.lt_or_ge w.now t with ht | ht
  · obtain ⟨hbegun, tick, htick⟩ := h.begun
    have hsame : w.begun.session = w.session := by
      obtain ⟨sweeper, log, -, hframe⟩ := w.begun_frame
      rw [hframe]
    rw [waitUntil_of_lt ht]
    have hread' : ∀ u, w.begun.now ≤ u → u ≤ t →
        (w.begun.session.node.clock.atElapsed u).Readable := by
      rw [hsame, now_begun]
      exact hread
    obtain ⟨hlast, tick', htick'⟩ := hbegun.sweepUntil htick hread'
    exact ⟨hlast.cancelled_eq, hlast.step_eq, Or.inl ⟨tick', htick'⟩⟩
  · rw [waitUntil_of_le ht]
    exact h

theorem Working.perform (h : w.Working) (a : Action) : (w.perform a).2.Working :=
  ⟨h.cancelled_eq, (w.session.step_perform a).trans h.step_eq, h.stands⟩

/-- A sweeper within reach works until it is told to stop. -/
theorem Working.completed (timeline : List (Nat × Action)) {stopAt : Nat} (h : w.Working)
    (hread : w.AlwaysReadable stopAt timeline) :
    ((w.run timeline).2.finish stopAt).1 = .completed := by
  induction timeline generalizing w with
  | nil =>
    show (w.finish stopAt).1 = .completed
    obtain ⟨t, ht⟩ | ⟨hidle, -⟩ := (h.waitUntil hread).stands
    · simp [Watch.finish, ht]
    · simp [Watch.finish, hidle]
  | cons entry rest ih =>
    obtain ⟨t, a⟩ := entry
    obtain ⟨hfirst, hlater⟩ := hread
    exact ih ((h.waitUntil hfirst).perform a) hlater

/-! ### A sweeper out of reach -/

/-- The sweeper has failed, or will do so as soon as the user waits from this time on. -/
def Doomed (now : Nat) (w : Watch) : Prop :=
  w.sweeper = .ended (.panicked none) ∨
    w.sweeper = .idle ∧ w.now = now ∧ w.cancelled = false ∧
      Ticker.start w.uptime w.plan.interval w.now = .error .tickOutOfReach

theorem Doomed.begun {now : Nat} (h : w.Doomed now) :
    w.begun.sweeper = .ended (.panicked none) := by
  obtain hended | ⟨hidle, -, hcancelled, hstart⟩ := h
  · have hbegun : w.sweeper ≠ .idle := by simp [hended]
    rw [begun_of_ne_idle hbegun]
    exact hended
  · have hbegun : w.begun = w.beginSweeper := by
      rw [Watch.begun]
      simp only [hidle]
    rw [hbegun, beginSweeper]
    simp only [logging, hcancelled, hstart]
    rfl

/-- Whoever waits beyond the time has a sweeper that has failed. -/
theorem Doomed.waitUntil_of_lt {now t : Nat} (h : w.Doomed now) (ht : w.now < t) :
    (w.waitUntil t).sweeper = .ended (.panicked none) := by
  have hbegun := h.begun
  have hnone : ∀ tick, w.begun.sweeper ≠ .waiting tick := by simp [hbegun]
  rw [Watch.waitUntil_of_lt ht, sweepUntil_of_not_waiting hnone]
  exact hbegun

theorem Doomed.waitUntil {now : Nat} (h : w.Doomed now) (t : Nat) : (w.waitUntil t).Doomed now := by
  rcases Nat.lt_or_ge w.now t with ht | ht
  · exact Or.inl (h.waitUntil_of_lt ht)
  · rw [waitUntil_of_le ht]
    exact h

theorem Doomed.failed (timeline : List (Nat × Action)) {now stopAt : Nat} (h : w.Doomed now)
    (hstop : now < stopAt) : ((w.run timeline).2.finish stopAt).1 = .panicked none := by
  induction timeline generalizing w with
  | nil =>
    show (w.finish stopAt).1 = _
    have hended : (w.waitUntil stopAt).sweeper = .ended (.panicked none) := by
      rcases h.waitUntil stopAt with hended | ⟨-, hnow, -⟩
      · exact hended
      · -- the stop lies beyond the time, so the sweeper has begun
        rw [now_waitUntil] at hnow
        omega
    simp [Watch.finish, hended]
  | cons entry rest ih =>
    obtain ⟨t, a⟩ := entry
    exact ih (h.waitUntil t)

/-- A sweeper started at any time works until it is told to stop, exactly if its first tick is
within reach. -/
theorem completed_iff_in_reach (hidle : w.sweeper = .idle) (hcancelled : w.cancelled = false)
    (hstep : w.session.node.clock.step = 0) (hpos : 0 < w.plan.interval.toNanos)
    (timeline : List (Nat × Action)) {stopAt : Nat} (hstop : w.now < stopAt)
    (hread : w.AlwaysReadable stopAt timeline) :
    ((w.run timeline).2.finish stopAt).1 = .completed ↔
      w.now + w.plan.interval.toNanos ≤ lastMoment w.uptime := by
  by_cases hreach : w.now + w.plan.interval.toNanos ≤ lastMoment w.uptime
  · have hworking : w.Working :=
      ⟨hcancelled, hstep, Or.inr ⟨hidle, Ticker.start_of_reach hpos hreach⟩⟩
    exact iff_of_true (hworking.completed timeline hread) hreach
  · have hstart := Ticker.start_of_not_reach hpos hreach
    have hdoomed : w.Doomed w.now := Or.inr ⟨hidle, rfl, hcancelled, hstart⟩
    simp [hdoomed.failed timeline hstop, hreach]

end Watch

/-! ### Accepted command lines -/

/-- **An accepted command line gives a working sweeper exactly if its first tick is within reach.**
The sweeper of accepted options can be started at a time exactly if the time and the interval do
not go beyond the last moment.  Beside any user, while the clock can be read, such a sweeper works
until it is told to stop, and any other fails. -/
theorem sweeping_works_iff_in_reach {args : List String} {o : Options}
    (h : Options.Sweeping args o) (uptime now : Nat) :
    ((∃ t, Ticker.start uptime o.interval now = .ok t) ↔
        now + o.interval.toNanos ≤ lastMoment uptime) ∧
      ∀ w : Watch, w.plan = o.plan → w.uptime = uptime → w.sweeper = .idle →
        w.cancelled = false → w.now = now → w.session.node.clock.step = 0 →
        ∀ timeline stopAt, now < stopAt → w.AlwaysReadable stopAt timeline →
          (((w.run timeline).2.finish stopAt).1 = .completed ↔
            now + o.interval.toNanos ≤ lastMoment uptime) := by
  refine ⟨Ticker.start_iff h.interval_pos, ?_⟩
  intro w hplan huptime hidle hcancelled hnow hstep timeline stopAt hstop hread
  have hinterval : w.plan.interval = o.interval := congrArg SweepPlan.interval hplan
  have hpos : 0 < w.plan.interval.toNanos := hinterval ▸ h.interval_pos
  rw [← hnow] at hstop
  have hiff := Watch.completed_iff_in_reach hidle hcancelled hstep hpos timeline hstop hread
  rwa [hinterval, huptime, hnow] at hiff

/-- What becomes of the sweeper's task in a program: without a first tick within reach it fails at
once, and otherwise only an interrupt ends it. -/
theorem Program.sweeperTask?_of_sweeping {args : List String} {o : Options}
    (h : Options.Sweeping args o) (uptime : Nat) (clock : Clock) (interrupted : Bool) :
    sweeperTask? uptime o clock interrupted =
      if o.interval.toNanos ≤ lastMoment uptime then
        if interrupted then some .completed else none
      else some (.panicked none) := by
  let w := Program.watch uptime o clock
  have hidle : w.sweeper = .idle := by
    show (if o.noSweeper then _ else _) = _
    rw [h.enabled]
    rfl
  have hbegun : w.begun = w.beginSweeper := by
    rw [Watch.begun]
    simp only [hidle]
  by_cases hreach : o.interval.toNanos ≤ lastMoment uptime
  · obtain ⟨t, ht⟩ : ∃ t, Ticker.start w.uptime w.plan.interval w.now = .ok t :=
      Ticker.start_of_reach h.interval_pos ((Nat.zero_add _).symm ▸ hreach)
    have hsweeper : (watch uptime o clock).begun.sweeper = .waiting t := by
      rw [hbegun, Watch.beginSweeper_of_start rfl ht]
    rw [if_pos hreach, sweeperTask?, hsweeper]
  · have hstart : Ticker.start w.uptime w.plan.interval w.now = .error .tickOutOfReach :=
      Ticker.start_of_not_reach h.interval_pos ((Nat.zero_add _).symm ▸ hreach)
    have hdoomed : w.Doomed 0 := Or.inr ⟨hidle, rfl, rfl, hstart⟩
    have hsweeper : (watch uptime o clock).begun.sweeper = .ended (.panicked none) := hdoomed.begun
    rw [if_neg hreach, sweeperTask?, hsweeper]

/-- The longest interval that is within reach at the beginning of a run, on a machine that had been
up for an hour; a second later it no longer is. -/
theorem sweeping_works_barely :
    let hour := 3600 * nanosPerSecond
    Options.Sweeping ["--sweep-interval", "9223372036854772207"]
        { sweepInterval := 9223372036854772207 } ∧
      (∃ t, Ticker.start hour (Age.ofSeconds 9223372036854772207) 0 = .ok t) ∧
      ¬ ∃ t, Ticker.start hour (Age.ofSeconds 9223372036854772207) 1000000000 = .ok t := by
  intro hour
  have h : Options.Sweeping ["--sweep-interval", "9223372036854772207"]
      { sweepInterval := 9223372036854772207 } := ⟨by rfl, by decide, rfl⟩
  refine ⟨h, (sweeping_works_iff_in_reach h hour 0).1.2 (by decide), ?_⟩
  intro hstart
  exact absurd ((sweeping_works_iff_in_reach h hour 1000000000).1.1 hstart) (by decide)

/-- The longest interval that can be written is accepted, and there is no time at which it can be
started. -/
theorem not_starts_longest_interval :
    Options.Sweeping ["--sweep-interval", "18446744073709551615"]
        { sweepInterval := 18446744073709551615 } ∧
      ∀ uptime now,
        Ticker.start uptime (Age.ofSeconds 18446744073709551615) now = .error .tickOutOfReach := by
  refine ⟨⟨by rfl, by decide, rfl⟩, ?_⟩
  intro uptime now
  have hinterval :
      (Age.ofSeconds 18446744073709551615).toNanos = 18446744073709551615000000000 := by decide
  have hlast : lastMoment uptime ≤ Nat.pow 2 63 * nanosPerSecond - 1 := Nat.sub_le _ _
  have hend : Nat.pow 2 63 * nanosPerSecond = 9223372036854775808000000000 := by decide
  refine Ticker.start_of_not_reach (by decide) ?_
  omega

end Presence
