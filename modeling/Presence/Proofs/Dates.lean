/-
Presence/Proofs/Dates.lean

Every day number is the number of a date.

The day with the number `n` lies in a year, and the days of this year lie in its
months.  At both levels the same is shown, that the part found is the one in which
the day lies:

    daysBeforeYear y ≤ n < daysBeforeYear (y + 1)     for y = yearOfDay n,
    days before the month ≤ n < days to its end       for monthAndDay n.

For the year the estimate is off by one at most, which is a matter of floor
divisions; for the month it is an induction on the lengths.

Main results: `Date.valid_ofDays` and `Date.toDays_ofDays`.
-/
import Mathlib.Algebra.GroupWithZero.Nat
import Presence.Time.Calendar

namespace Presence

/-! ### Years -/

theorem isLeapYear_iff {y : Int} :
    isLeapYear y = true ↔ y % 4 = 0 ∧ (y % 100 ≠ 0 ∨ y % 400 = 0) := by
  simp [isLeapYear]

/-- The days of a year are those of its months. -/
theorem daysBeforeYear_succ (y : Int) :
    daysBeforeYear (y + 1) = daysBeforeYear y + (monthLengths (isLeapYear y)).sum := by
  rcases hleap : isLeapYear y with - | -
  · have hcommon : ¬ (y % 4 = 0 ∧ (y % 100 ≠ 0 ∨ y % 400 = 0)) := by
      rw [← isLeapYear_iff, hleap]
      exact Bool.false_ne_true
    have hsum : (monthLengths false).sum = 365 := rfl
    unfold daysBeforeYear
    omega
  · have hlong := isLeapYear_iff.1 hleap
    have hsum : (monthLengths true).sum = 366 := rfl
    unfold daysBeforeYear
    omega

/-- A day lies in its year. -/
theorem yearOfDay_spec (n : Int) :
    daysBeforeYear (yearOfDay n) ≤ n ∧ n < daysBeforeYear (yearOfDay n + 1) := by
  unfold yearOfDay
  dsimp only
  split
  · unfold daysBeforeYear at *
    omega
  · split
    · unfold daysBeforeYear at *
      omega
    · omega

/-! ### Months -/

/-- A day lies in its month: the months before are over, and the day is one of this month's. -/
theorem monthAndDay_spec {n : Nat} (month : Nat) (lengths : List Nat) (h : n < lengths.sum) :
    ∃ before < lengths.length, (monthAndDay n month lengths).1 = month + before ∧
      1 ≤ (monthAndDay n month lengths).2 ∧
      (monthAndDay n month lengths).2 ≤ lengths.getD before 0 ∧
      (lengths.take before).sum + (monthAndDay n month lengths).2 = n + 1 := by
  induction lengths generalizing n month with
  | nil => exact absurd h (Nat.not_lt_zero n)
  | cons len rest ih =>
    rw [List.sum_cons] at h
    unfold monthAndDay
    split
    · next hlt => exact ⟨0, Nat.succ_pos _, rfl, Nat.succ_pos n, hlt, Nat.zero_add _⟩
    · next hle =>
      obtain ⟨before, hbefore, hmonth, hpos, hday, hsum⟩ :=
        ih (n := n - len) (month + 1) (by omega)
      refine ⟨before + 1, Nat.succ_lt_succ hbefore, by omega, hpos, hday, ?_⟩
      rw [List.take_succ_cons, List.sum_cons]
      omega

namespace Date

/-- No month is longer than 31 days. -/
theorem Valid.day_le {d : Date} (h : d.Valid) : d.day ≤ 31 := by
  have hlengths : ∀ len ∈ monthLengths (isLeapYear d.year), len ≤ 31 := by
    cases isLeapYear d.year <;> decide
  refine Nat.le_trans h.2.2.2 ?_
  rw [List.getD_eq_getElem?_getD]
  rcases hlen : (monthLengths (isLeapYear d.year))[d.month - 1]? with - | len
  · exact Nat.zero_le 31
  · exact hlengths len (List.mem_of_getElem? hlen)

variable (n : Int)

/-- The day is one of its date's year, month and so on, counted from the start of the year. -/
theorem ofDays_spec : ∃ before < 12, (ofDays n).month = before + 1 ∧ 1 ≤ (ofDays n).day ∧
    (ofDays n).day ≤ (monthLengths (isLeapYear (ofDays n).year)).getD before 0 ∧
    daysBeforeYear (ofDays n).year - daysBefore1970 +
      (((monthLengths (isLeapYear (ofDays n).year)).take before).sum + (ofDays n).day : Nat) =
        n + 1 := by
  obtain ⟨hstart, hend⟩ := yearOfDay_spec (n + daysBefore1970)
  rw [daysBeforeYear_succ] at hend
  have hyear : (n + daysBefore1970 - daysBeforeYear (yearOfDay (n + daysBefore1970))).toNat <
      (monthLengths (isLeapYear (yearOfDay (n + daysBefore1970)))).sum := by omega
  obtain ⟨before, hbefore, hmonth, hpos, hday, hsum⟩ := monthAndDay_spec 1 _ hyear
  refine ⟨before, hbefore, hmonth.trans (Nat.add_comm 1 before), hpos, hday, ?_⟩
  unfold ofDays
  dsimp only
  rw [hsum]
  omega

theorem valid_ofDays : (ofDays n).Valid := by
  obtain ⟨before, hbefore, hmonth, hpos, hday, -⟩ := ofDays_spec n
  refine ⟨by omega, by omega, hpos, ?_⟩
  rw [hmonth, Nat.add_sub_cancel]
  exact hday

theorem toDays_ofDays : (ofDays n).toDays = n := by
  obtain ⟨before, -, hmonth, hpos, -, hsum⟩ := ofDays_spec n
  unfold toDays
  rw [hmonth, Nat.add_sub_cancel]
  show _ + (((monthLengths (isLeapYear (ofDays n).year)).take before).sum + (ofDays n).day - 1 :
    Nat) = n
  omega

end Date

/-- A leap day, and the first day that can be represented. -/
example : Date.ofDays 19782 = ⟨2024, 2, 29⟩ ∧ Date.ofDays (-96465292) = ⟨-262143, 1, 1⟩ := by
  decide

end Presence
