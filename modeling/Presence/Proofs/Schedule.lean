/-
Presence/Proofs/Schedule.lean

Sessions in which sweeps are laid between the user's actions.

A schedule is a list of entries with their times: the user acts, or the peers
are swept.  `Session.follow` carries one out, entry by entry, with nothing going
on beside it.  It is the plain counterpart of a run with a sweeper at work: the
only thing it knows of a sweeper is that the first sweep that breaks off is the
last one.

`interleave` lays the sweeps of a source of ticks between the actions of a
timeline.  The regular source is a `Beat`, the times

    first,  first + gap,  first + 2 * gap,  ...

and `Beat.between` lists those after one time and up to another
(`Beat.mem_between`).
-/
import Presence.Proofs.Effect

namespace Presence

/-! ### Carrying out a schedule -/

/-- An entry of a schedule. -/
inductive Entry where
  /-- The user acts. -/
  | act (a : Action)
  /-- The peers are swept. -/
  | sweep
  deriving DecidableEq, Repr

/-- Sweeps at given times. -/
def sweepsAt (times : List Nat) : List (Nat × Entry) := times.map fun t => (t, .sweep)

namespace Session

/-- The session when so much time has passed since the run began. -/
def atTime (t : Nat) (s : Session) : Session :=
  { s with node := { s.node with clock := s.node.clock.atElapsed t } }

/-- Carries out the entries in order, each at its time; once a sweep has broken off, further ones
are passed over.  Gives the steps of the user's actions, whether sweeps still go on, and the
session at the end. -/
def follow (maxAge : Age) (sweeping : Bool) (s : Session) :
    List (Nat × Entry) → List Step × Bool × Session
  | [] => ([], sweeping, s)
  | (t, .act a) :: rest =>
    let (step, next) := (s.atTime t).perform a
    let (steps, last) := next.follow maxAge sweeping rest
    (step :: steps, last)
  | (t, .sweep) :: rest =>
    if sweeping then
      let (step, next) := (s.atTime t).perform (.sweep maxAge)
      next.follow maxAge step.answer.isOk rest
    else s.follow maxAge false rest

variable (maxAge : Age) (sweeping : Bool) (s : Session)

@[simp] theorem atTime_atTime (t u : Nat) : (s.atTime t).atTime u = s.atTime u := rfl

@[simp] theorem registry_atTime (t : Nat) : (s.atTime t).node.registry = s.node.registry := rfl

theorem atTime_of_elapsed {t : Nat} (h : s.node.clock.elapsed = t) : s.atTime t = s := by
  obtain ⟨⟨registry, ⟨base, step, elapsed⟩, poisoned⟩, held⟩ := s
  subst h
  rfl

/-- Whoever has acted at a time is still at that time. -/
theorem atTime_perform (t : Nat) (a : Action) :
    ((s.atTime t).perform a).2.atTime t = ((s.atTime t).perform a).2 :=
  atTime_of_elapsed _ (elapsed_perform _ a)

theorem follow_act (t : Nat) (a : Action) (l : List (Nat × Entry)) :
    s.follow maxAge sweeping ((t, .act a) :: l) =
      (((s.atTime t).perform a).1 :: (((s.atTime t).perform a).2.follow maxAge sweeping l).1,
        (((s.atTime t).perform a).2.follow maxAge sweeping l).2) := rfl

/-- Whether sweeps still go on, and the session, after sweeps at given times. -/
def swept (maxAge : Age) (sweeping : Bool) (times : List Nat) (s : Session) : Bool × Session :=
  (s.follow maxAge sweeping (sweepsAt times)).2

@[simp] theorem swept_nil : s.swept maxAge sweeping [] = (sweeping, s) := rfl

theorem swept_cons (t : Nat) (times : List Nat) :
    s.swept maxAge true (t :: times) =
      ((s.atTime t).perform (.sweep maxAge)).2.swept maxAge
        ((s.atTime t).perform (.sweep maxAge)).1.answer.isOk times := rfl

/-- Once a sweep has broken off, there are none. -/
@[simp] theorem swept_false (times : List Nat) : s.swept maxAge false times = (false, s) := by
  induction times with
  | nil => rfl
  | cons t rest ih => exact ih

/-- Sweeps at the head of a schedule give no steps. -/
theorem follow_sweepsAt_append (times : List Nat) (l : List (Nat × Entry)) :
    s.follow maxAge sweeping (sweepsAt times ++ l) =
      (s.swept maxAge sweeping times).2.follow maxAge (s.swept maxAge sweeping times).1 l := by
  induction times generalizing s sweeping with
  | nil => rfl
  | cons t rest ih =>
    cases sweeping with
    | true => exact ih _ _
    | false => exact ih _ _

theorem follow_sweepsAt (times : List Nat) :
    s.follow maxAge sweeping (sweepsAt times) = ([], s.swept maxAge sweeping times) := by
  have h := s.follow_sweepsAt_append maxAge sweeping times []
  rw [List.append_nil] at h
  exact h

end Session

/-! ### Regular times -/

/-- Times at a regular distance, from a first one on. -/
structure Beat where
  /-- The first of the times. -/
  first : Nat
  /-- From one time to the next. -/
  gap : Nat
  /-- None of the times is the beginning. -/
  first_pos : 0 < first
  /-- The times are different. -/
  gap_pos : 0 < gap

namespace Beat

/-- The multiples of a length of time, from the first on. -/
def every (n : Nat) (h : 0 < n) : Beat := ⟨n, n, h, h⟩

variable (b : Beat) {k t now : Nat}

/-- The time with the number `k`, counted from zero. -/
def time (k : Nat) : Nat := b.first + k * b.gap

/-- How many of the times have come at a time, this one included. -/
def count (t : Nat) : Nat := (t + b.gap - b.first) / b.gap

/-- The times after one time and up to another. -/
def between (now t : Nat) : List Nat :=
  (List.range' (b.count now) (b.count t - b.count now)).map b.time

theorem time_zero : b.time 0 = b.first := by
  rw [time, Nat.zero_mul, Nat.add_zero]

theorem time_succ (k : Nat) : b.time (k + 1) = b.time k + b.gap := by
  simp only [time, Nat.succ_mul]
  omega

theorem lt_count_iff : k < b.count t ↔ b.time k ≤ t := by
  rw [count, ← Nat.succ_le_iff, Nat.le_div_iff_mul_le b.gap_pos, Nat.succ_mul, time]
  have := b.gap_pos
  omega

theorem count_le_iff : b.count t ≤ k ↔ t < b.time k := by
  rw [← Nat.not_lt, lt_count_iff, Nat.not_le]

theorem lt_time_count (t : Nat) : t < b.time (b.count t) :=
  b.count_le_iff.1 (Nat.le_refl _)

@[simp] theorem count_time (k : Nat) : b.count (b.time k) = k + 1 := by
  have h₁ : k < b.count (b.time k) := b.lt_count_iff.2 (Nat.le_refl _)
  have h₂ : b.count (b.time k) ≤ k + 1 := by
    have := b.gap_pos
    rw [count_le_iff, time_succ]
    omega
  omega

theorem count_mono (h : now ≤ t) : b.count now ≤ b.count t :=
  Nat.div_le_div_right (by omega)

@[simp] theorem count_zero : b.count 0 = 0 := by
  have h : b.count 0 ≤ 0 := by
    have := b.first_pos
    rw [count_le_iff, time]
    omega
  omega

theorem between_of_count_le (h : b.count t ≤ b.count now) : b.between now t = [] := by
  rw [between, Nat.sub_eq_zero_of_le h]
  rfl

theorem between_of_count_lt (h : b.count now < b.count t) :
    b.between now t =
      b.time (b.count now) :: b.between (b.time (b.count now)) t := by
  -- the first of the times to come is the one with the number `count now`
  obtain ⟨n, hn⟩ := Nat.exists_eq_add_of_lt h
  have hrest : b.count t - b.count now = n + 1 := by omega
  have htail : b.count t - (b.count now + 1) = n := by omega
  rw [between, between, count_time, hrest, htail, List.range'_succ, List.map_cons]

theorem mem_between {u : Nat} :
    u ∈ b.between now t ↔ now < u ∧ u ≤ t ∧ ∃ k, u = b.time k := by
  simp only [between, List.mem_map, List.mem_range'_1]
  constructor
  · rintro ⟨k, ⟨hlo, hhi⟩, rfl⟩
    exact ⟨b.count_le_iff.1 hlo, b.lt_count_iff.1 (by omega), k, rfl⟩
  · rintro ⟨hlo, hhi, k, rfl⟩
    have h₁ := b.count_le_iff.2 hlo
    have h₂ := b.lt_count_iff.2 hhi
    exact ⟨k, by omega, rfl⟩

end Beat

/-! ### Sweeps between actions -/

/-- The actions of a timeline with a sweep at each tick; `ticks now t` are the ticks after a time
and up to another.  A sweep comes before an action at the same time, and an action whose time
has passed is not put off any further. -/
def interleave (ticks : Nat → Nat → List Nat) (now stopAt : Nat) :
    (timeline : List (Nat × Action)) → List (Nat × Entry)
  | [] => sweepsAt (ticks now stopAt)
  | (t, a) :: rest =>
    sweepsAt (ticks now t) ++ (max now t, .act a) :: interleave ticks (max now t) stopAt rest

/-- The session of a user and a sweeper who take turns: the actions `before`, then those of the
timeline with the sweeps of a source of ticks between them. -/
def sequential (maxAge : Age) (ticks : Nat → Nat → List Nat) (clock : Clock)
    (before : List Action) (timeline : List (Nat × Action)) (stopAt : Nat) :
    List Step × Bool × Session :=
  let (first, session) := (Session.start clock).run before
  let (rest, last) := session.follow maxAge true (interleave ticks 0 stopAt timeline)
  (first ++ rest, last)

end Presence
