/-
Presence/Proofs/Moments.lean

The states that a run with a sweeper goes through.

A run is given as a whole, by its actions and its end.  `watchUntil` cuts it off
at a moment: the actions whose time has come, and then a wait.  This is a state
of the run itself, because a wait can be taken in two pieces without a
difference (`Watch.waitUntil_waitUntil`), and going on from there with the rest
of the timeline leads to the run's end (`watch_eq_from_watchUntil`).
-/
import Presence.Proofs.SweeperFrame
import Mathlib.Data.List.TakeWhile

namespace Presence

namespace Watch

variable (w : Watch) {t u : Nat}

/-- Sweeps up to one time and then up to another are the sweeps up to the other. -/
theorem sweepUntil_sweepUntil (hnow : w.now ≤ t) (h : t ≤ u) :
    (((w.sweepUntil t).atTime t).sweepUntil u).atTime u = (w.sweepUntil u).atTime u := by
  fun_induction sweepUntil t w with
  | case1 w tick hw harrival ih =>
    -- the tick comes within the first piece
    have hlater : ((w.atTime (tick.arrival w.now)).sweepNow tick).now ≤ t := by
      rw [now_sweepNow, now_atTime]
      exact harrival
    rw [ih hlater, sweepUntil_of_waiting hw u, if_pos (Nat.le_trans harrival h)]
  | case2 w tick hw harrival =>
    -- the tick is yet to come when the first piece is over
    have hwait : (w.atTime t).sweeper = .waiting tick := hw
    have hsame : tick.arrival (w.atTime t).now = tick.arrival w.now :=
      Ticker.arrival_eq_of_lt hnow (Nat.not_le.1 harrival)
    rw [sweepUntil_of_waiting hwait, sweepUntil_of_waiting hw, hsame, atTime_atTime]
    split
    · rfl
    · rfl
  | case3 w hw =>
    have hlater : ∀ tick, (w.atTime t).sweeper ≠ .waiting tick := hw
    rw [sweepUntil_of_not_waiting hw, sweepUntil_of_not_waiting hlater]
    rfl

/-- **A wait can be taken in two pieces.** -/
theorem waitUntil_waitUntil (h : t ≤ u) : (w.waitUntil t).waitUntil u = w.waitUntil u := by
  rcases Nat.lt_or_ge w.now t with ht | ht
  · rcases Nat.lt_or_eq_of_le h with hlt | rfl
    · have hidle : ((w.begun.sweepUntil t).atTime t).sweeper ≠ .idle :=
        sweeper_sweepUntil_ne_idle w.sweeper_begun_ne_idle t
      have hbegun : w.begun.now ≤ t := by
        rw [now_begun]
        exact Nat.le_of_lt ht
      have hfirst : (w.waitUntil t).now < u := by
        rw [now_waitUntil]
        omega
      rw [waitUntil_of_lt hfirst, waitUntil_of_lt ht, waitUntil_of_lt (Nat.lt_trans ht hlt),
        begun_of_ne_idle hidle, sweepUntil_sweepUntil _ hbegun h]
    · have hdone : t ≤ (w.waitUntil t).now := by
        rw [now_waitUntil]
        omega
      rw [waitUntil_of_le hdone]
  · rw [waitUntil_of_le ht]

theorem run_append (l m : List (Nat × Action)) : (w.run (l ++ m)).2 = ((w.run l).2.run m).2 := by
  induction l generalizing w with
  | nil => rfl
  | cons e rest ih => exact ih _

/-- Whoever waits before a timeline whose actions come later changes nothing. -/
theorem finish_run_waitUntil (timeline : List (Nat × Action)) {stopAt : Nat} (hstop : t ≤ stopAt)
    (hlater : ∀ e ∈ timeline.head?, t ≤ e.1) :
    ((w.waitUntil t).run timeline).2.finish stopAt = (w.run timeline).2.finish stopAt := by
  cases timeline with
  | nil =>
    show (w.waitUntil t).finish stopAt = w.finish stopAt
    rw [finish, w.waitUntil_waitUntil hstop]
    rfl
  | cons e rest =>
    have he : t ≤ e.1 := hlater e rfl
    show ((((w.waitUntil t).waitUntil e.1).perform e.2).2.run rest).2.finish stopAt = _
    rw [w.waitUntil_waitUntil he]
    rfl

theorem now_run_le {limit : Nat} (timeline : List (Nat × Action))
    (hlimit : ∀ e ∈ timeline, e.1 ≤ limit) (hnow : w.now ≤ limit) :
    (w.run timeline).2.now ≤ limit := by
  induction timeline generalizing w with
  | nil => exact hnow
  | cons e rest ih =>
    obtain ⟨he, hlimit'⟩ := List.forall_mem_cons.1 hlimit
    have hnext : ((w.waitUntil e.1).perform e.2).2.now ≤ limit := by
      show (w.waitUntil e.1).now ≤ limit
      rw [now_waitUntil]
      omega
    exact ih _ hlimit' hnext

end Watch

/-! ### Moments -/

/-- A run with a sweeper up to a moment: the actions `before`, those of the timeline whose time has
come, and then the user waits. -/
def watchUntil (uptime : Nat) (plan : SweepPlan) (clock : Clock) (before : List Action)
    (timeline : List (Nat × Action)) (t : Nat) : Watch :=
  let session := ((Session.start clock).run before).2
  let start : Watch := { plan, uptime, cancelled := false, session }
  (start.run (timeline.takeWhile fun e => e.1 ≤ t)).2.waitUntil t

variable (uptime : Nat) (plan : SweepPlan) (clock : Clock) (before : List Action)
  (timeline : List (Nat × Action))

theorem now_watchUntil (t : Nat) : (watchUntil uptime plan clock before timeline t).now = t := by
  have hlimit : ∀ e ∈ timeline.takeWhile (fun e => e.1 ≤ t), e.1 ≤ t := by
    intro e he
    simpa using List.mem_takeWhile_imp he
  unfold watchUntil
  dsimp only
  rw [Watch.now_waitUntil]
  exact Nat.max_eq_right (Watch.now_run_le _ _ hlimit (Nat.zero_le t))

/-- **Every moment lies on the run**: going on from it with the rest of the timeline leads to the
end of the run. -/
theorem watch_eq_from_watchUntil {t stopAt : Nat} (ht : t ≤ stopAt) :
    (watch uptime plan false clock before timeline stopAt).2 =
      ((watchUntil uptime plan clock before timeline t).run
        (timeline.dropWhile fun e => e.1 ≤ t)).2.finish stopAt := by
  have hlater : ∀ e ∈ (timeline.dropWhile fun e => e.1 ≤ t).head?, t ≤ e.1 := by
    intro e he
    have hnot := List.head?_dropWhile_not (fun e : Nat × Action => decide (e.1 ≤ t)) timeline
    rw [Option.mem_def.1 he] at hnot
    exact Nat.le_of_lt (by simpa using hnot)
  unfold watchUntil
  dsimp only
  rw [Watch.finish_run_waitUntil _ _ ht hlater, ← Watch.run_append, List.takeWhile_append_dropWhile]
  rfl

end Presence
