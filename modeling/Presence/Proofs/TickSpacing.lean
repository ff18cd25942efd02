/-
Presence/Proofs/TickSpacing.lean

How far apart ticks come.

Whoever takes ticks is busy for a while before each wait, and may come late for a
tick.  A tick that is taken no more than a tolerance late does not move the next
one; after one that is taken later, the next is due a gap after it was taken.  In
both cases

    due + gap  ≤  next due        received + gap  ≤  next due + tolerance

(`Ticker.due_add_gap_le`, `Ticker.received_add_gap_le`).  The first of these adds up
along the ticks.  The second need not: it is used once, for the earlier of two
ticks, and from the tick behind that one on only times at which ticks are due are
compared.  So between the receptions of two ticks a single tolerance is missing,
however many ticks lie between them (`Ticker.apart_of_ticksFrom`).

The gap is the interval only up to the longest gap.  The ticks at an interval keep
its beat (`Beat.ofInterval`); they keep the beat of its multiples in all runs whose
ticks are due before the end of time exactly if the interval is not longer than
that, or so long that there is no second tick (`ticks_keep_the_beat`).
-/
import Presence.Proofs.SweepTimes
import Presence.Proofs.SweeperStart
import Mathlib.Data.List.Basic

namespace Presence

/-- Ticks, each with the times at which it is due and received, keep a beat that starts when the
first of them is waited for; `busy` are the times that pass before the waits. -/
structure KeepsBeat (b : Beat) (busy : List Nat) (run : List (Nat × Nat)) : Prop where
  /-- There is a tick for each wait. -/
  length_eq : run.length = busy.length
  /-- The first one is due when the beat begins. -/
  first_due : ∀ tick ∈ run.head?, tick.1 = busy.headD 0 + b.first
  /-- None is received before it is due. -/
  not_early : ∀ tick ∈ run, tick.1 ≤ tick.2
  /-- From one to the next there is at least a gap. -/
  due_apart : ∀ k earlier later, run[k]? = some earlier → run[k + 1]? = some later →
    earlier.1 + b.gap ≤ later.1
  /-- Between any two receptions there are all the gaps but for one tolerance. -/
  received_apart : ∀ i j earlier later, i < j → run[i]? = some earlier → run[j]? = some later →
    earlier.2 + (j - i) * b.gap ≤ later.2 + Ticker.tolerance
  /-- Who is never busy for longer than a gap receives each tick when it is due, on the beat. -/
  punctual : (∀ time ∈ busy.tail, time ≤ b.gap) → ∀ k tick, run[k]? = some tick →
    tick.1 = busy.headD 0 + b.time k ∧ tick.2 = tick.1

namespace Ticker

variable {t : Ticker} {uptime now received k : Nat} {busy : List Nat}
  {tick earlier later : Nat × Nat}

/-! ### From one tick to the next -/

theorem due_add_gap_le (t : Ticker) (received : Nat) : t.due + t.gap ≤ (t.next received).due := by
  unfold next
  dsimp only
  split <;> omega

/-- A tick that is taken late brings the next one closer by no more than the tolerance. -/
theorem received_add_gap_le (t : Ticker) (received : Nat) :
    received + t.gap ≤ (t.next received).due + tolerance := by
  unfold next
  dsimp only
  split <;> omega

theorem ticksFrom_cons (t : Ticker) (now b : Nat) (rest : List Nat) :
    t.ticksFrom now (b :: rest) =
      (t.due, t.arrival (now + b)) ::
        (t.next (t.arrival (now + b))).ticksFrom (t.arrival (now + b)) rest := rfl

/-! ### Along the ticks -/

@[simp] theorem length_ticksFrom (t : Ticker) (now : Nat) (busy : List Nat) :
    (t.ticksFrom now busy).length = busy.length := by
  induction busy generalizing t now with
  | nil => rfl
  | cons b rest ih => rw [ticksFrom_cons, List.length_cons, ih, List.length_cons]

theorem not_early_of_ticksFrom (h : tick ∈ t.ticksFrom now busy) : tick.1 ≤ tick.2 := by
  induction busy generalizing t now with
  | nil => cases h
  | cons b rest ih =>
    rw [ticksFrom_cons] at h
    rcases List.mem_cons.1 h with rfl | h
    · exact t.due_le_arrival _
    · exact ih h

/-- The gaps add up: a tick is due when all gaps up to it have passed, or later. -/
theorem le_due_of_ticksFrom (h : (t.ticksFrom now busy)[k]? = some tick) :
    t.due + k * t.gap ≤ tick.1 := by
  induction busy generalizing t now k with
  | nil => cases h
  | cons b rest ih =>
    rw [ticksFrom_cons] at h
    cases k with
    | zero =>
      obtain rfl := Option.some.inj h
      simp
    | succ k =>
      rw [List.getElem?_cons_succ] at h
      have hmore := ih h
      have hnext := t.due_add_gap_le (t.arrival (now + b))
      rw [gap_next] at hmore
      rw [Nat.succ_mul]
      omega

/-- From a tick on, the rest of the ticks are those of a ticker with the same gap. -/
theorem exists_drop_ticksFrom (t : Ticker) (now : Nat) (busy : List Nat) (i : Nat) :
    ∃ (u : Ticker) (now' : Nat), u.gap = t.gap ∧
      (t.ticksFrom now busy).drop i = u.ticksFrom now' (busy.drop i) := by
  induction i generalizing t now busy with
  | zero => exact ⟨t, now, rfl, rfl⟩
  | succ i ih =>
    cases busy with
    | nil => exact ⟨t, now, rfl, rfl⟩
    | cons b rest =>
      obtain ⟨u, now', hgap, hdrop⟩ :=
        ih (t.next (t.arrival (now + b))) (t.arrival (now + b)) rest
      exact ⟨u, now', hgap.trans (t.gap_next _), hdrop⟩

/-- The first tick and a later one.  Only the first is compared with its reception; from the second
tick on, times are those at which ticks are due. -/
theorem apart_of_first (h₀ : (t.ticksFrom now busy)[0]? = some earlier)
    (h : (t.ticksFrom now busy)[k + 1]? = some later) :
    earlier.1 + (k + 1) * t.gap ≤ later.1 ∧
      earlier.2 + (k + 1) * t.gap ≤ later.2 + tolerance := by
  have hlater := not_early_of_ticksFrom (List.mem_of_getElem? h)
  cases busy with
  | nil => cases h₀
  | cons b rest =>
    rw [ticksFrom_cons] at h₀ h
    obtain rfl := Option.some.inj h₀
    rw [List.getElem?_cons_succ] at h
    -- the ticks behind the first are those of the next ticker, and its due time is what is known
    have hmore := le_due_of_ticksFrom h
    rw [gap_next] at hmore
    have hdue := t.due_add_gap_le (t.arrival (now + b))
    have hreceived := t.received_add_gap_le (t.arrival (now + b))
    rw [Nat.succ_mul]
    dsimp only
    omega

/-- **Two ticks are as far apart as the gaps between them**, when they are due, and when they are
received but for one tolerance. -/
theorem apart_of_ticksFrom {i j : Nat} (hij : i < j)
    (hi : (t.ticksFrom now busy)[i]? = some earlier)
    (hj : (t.ticksFrom now busy)[j]? = some later) :
    earlier.1 + (j - i) * t.gap ≤ later.1 ∧
      earlier.2 + (j - i) * t.gap ≤ later.2 + tolerance := by
  obtain ⟨k, rfl⟩ := Nat.exists_eq_add_of_lt hij
  -- the earlier tick is the first of those that are left when the ones before it are dropped
  obtain ⟨u, now', hgap, hdrop⟩ := exists_drop_ticksFrom t now busy i
  have hfirst : (u.ticksFrom now' (busy.drop i))[0]? = some earlier := by
    rw [← hdrop, List.getElem?_drop]
    exact hi
  have hlater : (u.ticksFrom now' (busy.drop i))[k + 1]? = some later := by
    rw [← hdrop, List.getElem?_drop]
    exact hj
  have hapart := apart_of_first hfirst hlater
  rw [hgap] at hapart
  have hcount : i + k + 1 - i = k + 1 := by omega
  rwa [hcount]

/-- Who is always back in time receives the ticks when they are due, a gap apart. -/
theorem ticksFrom_of_punctual (hdue : nanosPerMilli ∣ t.due) (hgap : nanosPerMilli ∣ t.gap)
    (hfirst : ∀ b ∈ busy.head?, now + b ≤ t.due) (hrest : ∀ b ∈ busy.tail, b ≤ t.gap)
    (h : (t.ticksFrom now busy)[k]? = some tick) :
    tick.1 = t.due + k * t.gap ∧ tick.2 = tick.1 := by
  induction busy generalizing t now k with
  | nil => cases h
  | cons b rest ih =>
    have harrival : t.arrival (now + b) = t.due := arrival_eq_due hdue (hfirst b rfl)
    rw [ticksFrom_cons, harrival] at h
    cases k with
    | zero =>
      obtain rfl := Option.some.inj h
      simp
    | succ k =>
      rw [List.getElem?_cons_succ] at h
      -- a tick that is taken when it is due leaves a whole gap to be busy in
      have hnext : (t.next t.due).due = t.due + t.gap := t.due_next_due
      have hmilli : nanosPerMilli ∣ (t.next t.due).due := by
        rw [hnext]
        exact Nat.dvd_add hdue hgap
      have hmore := ih hmilli (by rwa [gap_next]) ?_ ?_ h
      · rw [hnext, gap_next] at hmore
        rw [Nat.succ_mul]
        exact ⟨by omega, hmore.2⟩
      · intro c hc
        rw [hnext]
        exact Nat.add_le_add_left (hrest c (List.mem_of_mem_head? hc)) _
      · intro c hc
        rw [gap_next]
        exact hrest c (List.mem_of_mem_tail hc)

/-! ### The first tick -/

theorem of_start_eq_ok {interval : Age} (h : start uptime interval now = .ok t) :
    now + interval.toNanos ≤ lastMoment uptime ∧ t.due = now + interval.toNanos ∧
      t.gap = min interval.toNanos longestGap := by
  unfold start at h
  split at h
  · split at h
    · cases h
    · next hreach =>
      obtain rfl := Except.ok.inj h
      exact ⟨Nat.not_lt.1 hreach, rfl, rfl⟩
  · cases h

end Ticker

/-! ### Ticks at an interval -/

section

variable {uptime : Nat} {interval : Age} {busy : List Nat} {run : List (Nat × Nat)}

theorem exists_ticks (hpos : 0 < interval.toNanos)
    (hreach : ∀ time ∈ busy.head?, time + interval.toNanos ≤ lastMoment uptime) :
    ∃ run, ticks uptime interval busy = .ok run := by
  cases busy with
  | nil => exact ⟨[], rfl⟩
  | cons b rest =>
    obtain ⟨t, ht⟩ := Ticker.start_of_reach hpos (hreach b rfl)
    refine ⟨t.ticksFrom b (0 :: rest), ?_⟩
    rw [ticks, ht]
    rfl

/-- The ticker is started when its first tick is waited for. -/
theorem exists_ticker_of_ticks {b : Nat} {rest : List Nat}
    (h : ticks uptime interval (b :: rest) = .ok run) :
    ∃ t, Ticker.start uptime interval b = .ok t ∧ run = t.ticksFrom b (0 :: rest) := by
  rw [ticks] at h
  rcases ht : Ticker.start uptime interval b with f | t
  · rw [ht] at h
    cases h
  · rw [ht] at h
    exact ⟨t, rfl, (Except.ok.inj h).symm⟩

theorem keepsBeat_nil (b : Beat) : KeepsBeat b [] [] where
  length_eq := rfl
  first_due := by simp
  not_early := by simp
  due_apart := by simp
  received_apart := by simp
  punctual := by simp

/-- The ticks at an interval keep its beat. -/
theorem keepsBeat_ticks (hpos : 0 < interval.toNanos) (hmilli : nanosPerMilli ∣ interval.toNanos)
    (hbusy : ∀ time ∈ busy, nanosPerMilli ∣ time) (h : ticks uptime interval busy = .ok run) :
    KeepsBeat (Beat.ofInterval interval hpos) busy run := by
  cases busy with
  | nil =>
    obtain rfl := Except.ok.inj h
    exact keepsBeat_nil _
  | cons b rest =>
    obtain ⟨t, ht, rfl⟩ := exists_ticker_of_ticks h
    obtain ⟨hreach, hdue, hgap⟩ := Ticker.of_start_eq_ok ht
    have hdrives : (Beat.ofInterval interval hpos).Drives uptime interval :=
      Beat.drives_ofInterval hmilli (Nat.le_trans (Nat.le_add_left _ b) hreach)
    have hbeat : (Beat.ofInterval interval hpos).gap = t.gap := hgap.symm
    have hfirst : (Beat.ofInterval interval hpos).first = interval.toNanos := rfl
    refine
      { length_eq := t.length_ticksFrom b (0 :: rest)
        first_due := ?_
        not_early := fun tick htick => Ticker.not_early_of_ticksFrom htick
        due_apart := ?_
        received_apart := ?_
        punctual := ?_ }
    · rintro tick ⟨⟩
      exact hdue
    · intro k earlier later hk hk'
      have hapart := (Ticker.apart_of_ticksFrom (Nat.lt_succ_self k) hk hk').1
      rw [Nat.succ_sub (Nat.le_refl k), Nat.sub_self, Nat.one_mul] at hapart
      rwa [hbeat]
    · intro i j earlier later hij hi hj
      rw [hbeat]
      exact (Ticker.apart_of_ticksFrom hij hi hj).2
    · intro hrest k tick hk
      rw [hbeat] at hrest
      have hmilli_due : nanosPerMilli ∣ t.due := by
        rw [hdue]
        exact Nat.dvd_add (hbusy b List.mem_cons_self) hmilli
      have hmilli_gap : nanosPerMilli ∣ t.gap := by
        rw [← hbeat]
        exact hdrives.milli_gap
      have hwait : ∀ c ∈ (0 :: rest).head?, b + c ≤ t.due := by
        rintro c ⟨⟩
        omega
      have hpunctual := Ticker.ticksFrom_of_punctual hmilli_due hmilli_gap hwait hrest hk
      rw [Beat.time, hfirst, hbeat]
      show tick.1 = b + _ ∧ _
      exact ⟨by omega, hpunctual.2⟩

/-- With a tick at most, only the beginning of the beat counts. -/
theorem KeepsBeat.of_length_le_one {b b' : Beat} (h : KeepsBeat b busy run)
    (hfirst : b.first = b'.first) (hrun : run.length ≤ 1) : KeepsBeat b' busy run where
  length_eq := h.length_eq
  first_due := by
    rw [← hfirst]
    exact h.first_due
  not_early := h.not_early
  due_apart := by
    intro k earlier later _ hlater
    obtain ⟨hlt, -⟩ := List.getElem?_eq_some_iff.1 hlater
    omega
  received_apart := by
    intro i j earlier later hij _ hlater
    obtain ⟨hlt, -⟩ := List.getElem?_eq_some_iff.1 hlater
    omega
  punctual := by
    intro _ k tick hk
    obtain ⟨hlt, -⟩ := List.getElem?_eq_some_iff.1 hk
    obtain rfl : k = 0 := by omega
    have hnone : busy.tail = [] := by
      apply List.eq_nil_of_length_eq_zero
      rw [List.length_tail, ← h.length_eq]
      omega
    have hbeat := h.punctual (by simp [hnone]) 0 tick hk
    rwa [Beat.time_zero, hfirst, ← Beat.time_zero] at hbeat

/-- Two ticks without any busy time between them, at an interval beyond the longest gap, are closer
than the interval. -/
theorem not_keepsBeat_every (hpos : 0 < interval.toNanos)
    (hmilli : nanosPerMilli ∣ interval.toNanos) (hlong : Ticker.longestGap < interval.toNanos)
    (hreach : interval.toNanos + Ticker.longestGap ≤ lastMoment uptime) :
    ∃ run, ticks uptime interval [0, 0] = .ok run ∧ (∀ tick ∈ run, tick.1 ≤ lastMoment uptime) ∧
      ¬ KeepsBeat (Beat.every interval.toNanos hpos) [0, 0] run := by
  have hstart : ∀ time ∈ [0, 0].head?, time + interval.toNanos ≤ lastMoment uptime := by
    rintro time ⟨⟩
    omega
  obtain ⟨run, hrun⟩ := exists_ticks hpos hstart
  have hkeeps := keepsBeat_ticks hpos hmilli (by simp) hrun
  have hgap : (Beat.ofInterval interval hpos).gap = Ticker.longestGap :=
    Nat.min_eq_right (Nat.le_of_lt hlong)
  have hfirst : (Beat.ofInterval interval hpos).first = interval.toNanos := rfl
  obtain ⟨x, y, rfl⟩ := List.length_eq_two.1 hkeeps.length_eq
  have hpunctual := hkeeps.punctual (by simp)
  have hx := (hpunctual 0 x rfl).1
  have hy := (hpunctual 1 y rfl).1
  simp only [Beat.time, hgap, hfirst, List.headD_cons, Nat.zero_add, Nat.zero_mul, Nat.one_mul,
    Nat.add_zero] at hx hy
  refine ⟨[x, y], hrun, ?_, ?_⟩
  · intro tick htick
    simp only [List.mem_cons, List.not_mem_nil, or_false] at htick
    rcases htick with rfl | rfl
    · omega
    · omega
  · intro hevery
    have hapart : x.1 + interval.toNanos ≤ y.1 := hevery.due_apart 0 x y rfl rfl
    omega

/-- An interval so long leaves no room for a second tick. -/
theorem length_le_one_of_reach (hpos : 0 < interval.toNanos)
    (hkeeps : KeepsBeat (Beat.ofInterval interval hpos) busy run)
    (hreach : ∀ tick ∈ run, tick.1 ≤ lastMoment uptime)
    (hlong : lastMoment uptime < interval.toNanos + Ticker.longestGap)
    (hgap : Ticker.longestGap < interval.toNanos) : run.length ≤ 1 := by
  rcases run with - | ⟨x, - | ⟨y, run⟩⟩
  · exact Nat.zero_le 1
  · exact Nat.le_refl 1
  · have hfirst : x.1 = busy.headD 0 + interval.toNanos := hkeeps.first_due x rfl
    have hapart : x.1 + min interval.toNanos Ticker.longestGap ≤ y.1 :=
      hkeeps.due_apart 0 x y rfl rfl
    rw [Nat.min_eq_right (Nat.le_of_lt hgap)] at hapart
    have hy := hreach y (List.mem_cons_of_mem x List.mem_cons_self)
    omega

/-- **The ticks at an interval keep its beat.**  If the first one is due before the end of time
there are as many ticks as waits, and between them lies the interval, or the longest gap if that is
shorter.  So all runs whose ticks are due before the end of time keep the beat of the multiples of
the interval exactly if it is not longer than the longest gap, or else so long that there is no
second tick. -/
theorem ticks_keep_the_beat (hpos : 0 < interval.toNanos)
    (hmilli : nanosPerMilli ∣ interval.toNanos) :
    (∀ busy : List Nat, (∀ time ∈ busy, nanosPerMilli ∣ time) →
      (∀ time ∈ busy.head?, time + interval.toNanos ≤ lastMoment uptime) →
      ∃ run, ticks uptime interval busy = .ok run ∧
        KeepsBeat (Beat.ofInterval interval hpos) busy run) ∧
    ((∀ busy run, (∀ time ∈ busy, nanosPerMilli ∣ time) → ticks uptime interval busy = .ok run →
        (∀ tick ∈ run, tick.1 ≤ lastMoment uptime) →
        KeepsBeat (Beat.every interval.toNanos hpos) busy run) ↔
      interval.toNanos ≤ Ticker.longestGap ∨
        lastMoment uptime < interval.toNanos + Ticker.longestGap) := by
  refine ⟨?_, ?_, ?_⟩
  · intro busy hbusy hreach
    obtain ⟨run, hrun⟩ := exists_ticks hpos hreach
    exact ⟨run, hrun, keepsBeat_ticks hpos hmilli hbusy hrun⟩
  · -- otherwise two ticks are enough to show the difference
    intro hall
    by_contra hbetween
    obtain ⟨hlong, hroom⟩ := not_or.1 hbetween
    obtain ⟨run, hrun, hreach, hnot⟩ :=
      not_keepsBeat_every hpos hmilli (Nat.not_le.1 hlong) (Nat.not_lt.1 hroom)
    exact hnot (hall [0, 0] run (by simp) hrun hreach)
  · intro hcases busy run hbusy hrun hreach
    have hkeeps := keepsBeat_ticks hpos hmilli hbusy hrun
    by_cases hshort : interval.toNanos ≤ Ticker.longestGap
    · rwa [← Beat.ofInterval_eq_every hshort]
    · have hlast := hcases.resolve_left hshort
      exact hkeeps.of_length_le_one rfl
        (length_le_one_of_reach hpos hkeeps hreach hlast (Nat.not_le.1 hshort))

end

/-- Every fifty milliseconds, on a machine that had been up for an hour: the second tick is taken
eighty late and moves the ones behind it, the third is taken four late and does not. -/
theorem ticks_keep_the_beat_fifty_millis :
    let interval : Age := ⟨0, 50000000⟩
    let busy := [7000000, 130000000, 54000000, 0]
    let run := [(57000000, 57000000), (107000000, 187000000), (237000000, 241000000),
      (287000000, 287000000)]
    0 < interval.toNanos ∧ nanosPerMilli ∣ interval.toNanos ∧
      ticks (3600 * nanosPerSecond) interval busy = .ok run ∧
      KeepsBeat (Beat.every interval.toNanos (by decide)) busy run := by
  intro interval busy run
  have hmilli : nanosPerMilli ∣ interval.toNanos := by decide
  have hrun : ticks (3600 * nanosPerSecond) interval busy = .ok run := by decide +kernel
  obtain ⟨-, hevery⟩ := ticks_keep_the_beat (by decide) hmilli
  exact ⟨by decide, hmilli, hrun, hevery.2 (Or.inl (by decide)) busy run (by decide) hrun
    (by decide)⟩

/-- At an interval of thirty-one years the second tick is due thirty years after the first, on a
machine that had been up for an hour. -/
theorem not_keepsBeat_thirty_one_years :
    ∃ run, ticks (3600 * nanosPerSecond) (Age.ofSeconds 977616000) [0, 0] = .ok run ∧
      (∀ tick ∈ run, tick.1 ≤ lastMoment (3600 * nanosPerSecond)) ∧
      ¬ KeepsBeat (Beat.every (Age.ofSeconds 977616000).toNanos (by decide)) [0, 0] run := by
  refine ⟨[(977616000000000000, 977616000000000000), (1923696000000000000, 1923696000000000000)],
    by decide +kernel, by decide, ?_⟩
  intro hkeeps
  have hapart := hkeeps.due_apart 0 _ _ rfl rfl
  revert hapart
  decide

end Presence
