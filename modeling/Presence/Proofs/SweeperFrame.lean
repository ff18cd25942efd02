/-
Presence/Proofs/SweeperFrame.lean

What each part of a run with a sweeper changes, and what it leaves alone.

A sweep is the action of sweeping on the user's session, and moves the sweeper
on or ends it; nothing else changes (`Watch.sweepNow_eq`).  When the sweeper
begins only the sweeper and the log change (`Watch.beginSweeper_frame`).  The
order to stop does not touch the session (`Watch.session_finish`).  A wait is
the sweeps of a sweeper that has begun (`Watch.waitUntil_of_lt`).

The rest are facts about ticks at whole milliseconds: such a tick is received
when it is due, so no tick ever shifts the ones behind it.
-/
import Presence.Sweeper

namespace Presence

/-! ### Ticks at whole milliseconds -/

namespace Ticker

variable {t : Ticker} {now u : Nat}

/-- A tick due at a whole millisecond is received when it is due. -/
theorem arrival_eq_due (hmilli : nanosPerMilli ∣ t.due) (hnow : now ≤ t.due) :
    t.arrival now = t.due := by
  obtain ⟨m, hm⟩ := hmilli
  simp only [arrival, nanosPerMilli] at hm ⊢
  omega

/-- Whoever waits a while for a tick that is still to come receives it when it would have come. -/
theorem arrival_eq_of_lt (hnow : now ≤ u) (hlt : u < t.arrival now) :
    t.arrival u = t.arrival now := by
  simp only [arrival] at hlt ⊢
  omega

theorem gap_mk (gap due : Nat) (h : 0 < gap) : (Ticker.mk gap h due).gap = gap := rfl

theorem gap_next (t : Ticker) (received : Nat) : (t.next received).gap = t.gap := by
  -- a plain `rfl` would compare the whole tickers first, and count up to the tolerance
  unfold next
  exact gap_mk _ _ _

/-- A tick received when it was due is followed by one a gap later. -/
theorem due_next_due (t : Ticker) : (t.next t.due).due = t.due + t.gap := by
  rw [next]
  dsimp only
  rw [if_neg (Nat.not_lt.2 (Nat.le_add_right _ _))]

end Ticker

namespace Watch

variable (w : Watch)

@[simp] theorem now_atTime (t : Nat) : (w.atTime t).now = t := rfl

theorem atTime_atTime (t u : Nat) : (w.atTime t).atTime u = w.atTime u := rfl

/-! ### Sweeps -/

/-- All that a sweep does: the action of sweeping, and the sweeper waits for the next tick or has
ended. -/
theorem sweepNow_eq (t : Ticker) :
    w.sweepNow t =
      { w.logging (w.session.node.sweep w.plan.maxAge).log with
        session := (w.session.perform (.sweep w.plan.maxAge)).2
        sweeper :=
          if (w.session.perform (.sweep w.plan.maxAge)).1.answer.isOk then .waiting (t.next w.now)
          else .ended (.panicked none) } := by
  have hanswer : (w.session.perform (.sweep w.plan.maxAge)).1.answer =
      (w.session.node.sweep w.plan.maxAge).result.map .ids := rfl
  rw [sweepNow, hanswer]
  rcases hresult : (w.session.node.sweep w.plan.maxAge).result with f | ids <;> rfl

theorem session_sweepNow (t : Ticker) :
    (w.sweepNow t).session = (w.session.perform (.sweep w.plan.maxAge)).2 := by
  rw [sweepNow_eq]

theorem sweeper_sweepNow_eq (t : Ticker) :
    (w.sweepNow t).sweeper =
      if (w.session.perform (.sweep w.plan.maxAge)).1.answer.isOk then .waiting (t.next w.now)
      else .ended (.panicked none) := by
  rw [sweepNow_eq]

theorem sweeper_sweepNow_ne_idle (t : Ticker) : (w.sweepNow t).sweeper ≠ .idle := by
  rw [sweeper_sweepNow_eq]
  split <;> simp

@[simp] theorem now_sweepNow (t : Ticker) : (w.sweepNow t).now = w.now := by
  rw [sweepNow_eq]
  rfl

@[simp] theorem plan_sweepNow (t : Ticker) : (w.sweepNow t).plan = w.plan := by
  rw [sweepNow_eq]
  rfl

@[simp] theorem uptime_sweepNow (t : Ticker) : (w.sweepNow t).uptime = w.uptime := by
  rw [sweepNow_eq]
  rfl

@[simp] theorem cancelled_sweepNow (t : Ticker) : (w.sweepNow t).cancelled = w.cancelled := by
  rw [sweepNow_eq]
  rfl

variable {w}

theorem sweepUntil_of_waiting {t : Ticker} (h : w.sweeper = .waiting t) (limit : Nat) :
    w.sweepUntil limit =
      if t.arrival w.now ≤ limit then
        ((w.atTime (t.arrival w.now)).sweepNow t).sweepUntil limit
      else w := by
  rw [sweepUntil]
  split
  · next u hu =>
    obtain rfl : t = u := by simpa using h.symm.trans hu
    rfl
  · next hne => exact absurd h (hne t)

theorem sweepUntil_of_not_waiting (h : ∀ t, w.sweeper ≠ .waiting t) (limit : Nat) :
    w.sweepUntil limit = w := by
  rw [sweepUntil]
  split
  · next t ht => exact absurd ht (h t)
  · rfl

theorem sweeper_sweepUntil_ne_idle (h : w.sweeper ≠ .idle) (limit : Nat) :
    (w.sweepUntil limit).sweeper ≠ .idle := by
  fun_induction sweepUntil limit w with
  | case1 w t ht harrival ih => exact ih (sweeper_sweepNow_ne_idle _ t)
  | case2 w t ht harrival => exact h
  | case3 w hne => exact h

theorem cancelled_sweepUntil (limit : Nat) : (w.sweepUntil limit).cancelled = w.cancelled := by
  fun_induction sweepUntil limit w with
  | case1 w t ht harrival ih => exact ih.trans (cancelled_sweepNow _ t)
  | case2 w t ht harrival => rfl
  | case3 w hne => rfl

/-! ### The sweeper begins -/

theorem beginSweeper_of_cancelled (h : w.cancelled = true) :
    w.beginSweeper =
      (w.logging [.sweeperStarted w.plan.maxAge w.plan.interval]).stopSweeper := by
  rw [beginSweeper]
  exact if_pos h

theorem beginSweeper_of_start (h : w.cancelled = false) {t : Ticker}
    (hstart : Ticker.start w.uptime w.plan.interval w.now = .ok t) :
    w.beginSweeper =
      { w.logging [.sweeperStarted w.plan.maxAge w.plan.interval] with sweeper := .waiting t } := by
  have hcancelled :
      ¬ (w.logging [.sweeperStarted w.plan.maxAge w.plan.interval]).cancelled = true := by
    show ¬ w.cancelled = true
    rw [h]
    exact Bool.false_ne_true
  have hstart' :
      Ticker.start (w.logging [.sweeperStarted w.plan.maxAge w.plan.interval]).uptime
        (w.logging [.sweeperStarted w.plan.maxAge w.plan.interval]).plan.interval
        (w.logging [.sweeperStarted w.plan.maxAge w.plan.interval]).now = .ok t := hstart
  unfold beginSweeper
  dsimp only
  rw [if_neg hcancelled, hstart']

variable (w)

/-- Only the sweeper and the log change when the sweeper begins. -/
theorem beginSweeper_frame :
    ∃ sweeper log, sweeper ≠ .idle ∧ w.beginSweeper = { w with sweeper, log } := by
  have hended : ∀ e : TaskEnd, Sweeper.ended e ≠ .idle := by simp
  have hwaiting : ∀ t : Ticker, Sweeper.waiting t ≠ .idle := by simp
  rw [beginSweeper]
  split
  · exact ⟨_, _, hended _, rfl⟩
  · split
    · exact ⟨_, _, hwaiting _, rfl⟩
    · exact ⟨_, _, hended _, rfl⟩

theorem begun_frame :
    ∃ sweeper log, sweeper ≠ .idle ∧ w.begun = { w with sweeper, log } := by
  rw [begun]
  split
  · exact w.beginSweeper_frame
  · next hidle => exact ⟨w.sweeper, w.log, hidle, rfl⟩

theorem sweeper_begun_ne_idle : w.begun.sweeper ≠ .idle := by
  obtain ⟨sweeper, log, hidle, hbegun⟩ := w.begun_frame
  rw [hbegun]
  exact hidle

@[simp] theorem now_begun : w.begun.now = w.now := by
  obtain ⟨sweeper, log, -, hbegun⟩ := w.begun_frame
  rw [hbegun]

variable {w}

theorem begun_of_ne_idle (h : w.sweeper ≠ .idle) : w.begun = w := by
  rw [begun]
  split
  · next hidle => exact absurd hidle h
  · rfl

/-! ### Waits and the end -/

/-- Whoever waits for a time to come lets a sweeper that has begun do its work. -/
theorem waitUntil_of_lt {t : Nat} (ht : w.now < t) :
    w.waitUntil t = (w.begun.sweepUntil t).atTime t :=
  if_pos ht

theorem waitUntil_of_le {t : Nat} (ht : t ≤ w.now) : w.waitUntil t = w :=
  if_neg (Nat.not_lt.2 ht)

variable (w)

theorem now_waitUntil (t : Nat) : (w.waitUntil t).now = max w.now t := by
  rcases Nat.lt_or_ge w.now t with ht | ht
  · rw [waitUntil_of_lt ht, now_atTime, Nat.max_eq_right (Nat.le_of_lt ht)]
  · rw [waitUntil_of_le ht, Nat.max_eq_left ht]

/-- Nobody gives the order to stop while the user waits. -/
theorem cancelled_waitUntil (t : Nat) : (w.waitUntil t).cancelled = w.cancelled := by
  rcases Nat.lt_or_ge w.now t with ht | ht
  · obtain ⟨sweeper, log, -, hbegun⟩ := w.begun_frame
    rw [waitUntil_of_lt ht]
    show (w.begun.sweepUntil t).cancelled = w.cancelled
    rw [cancelled_sweepUntil, hbegun]
  · rw [waitUntil_of_le ht]

/-- The order to stop does nothing to the user's session. -/
theorem session_finish (t : Nat) : (w.finish t).2.session = (w.waitUntil t).session := by
  rw [finish]
  dsimp only
  split
  · obtain ⟨sweeper, log, -, hbegin⟩ :=
      ({ w.waitUntil t with cancelled := true } : Watch).beginSweeper_frame
    rw [hbegin]
  · rfl
  · rfl

end Watch

end Presence
