/-
Presence/Proofs/Cutoff.lean

Cutoffs in exact arithmetic.

`cutoffBefore` goes through three cases: an age that is too long to be taken off,
a difference before the earliest instant, and an ordinary subtraction with a
borrowed second.  Measured in nanoseconds all three are one formula,

    cutoff  =  max (now - age) earliest,

because the longest age that is taken off spans the whole range of instants
(`reaches_below_earliest`, `toNanos_cutoffBefore`).  The subtraction itself is exact
inside a leap second as well (`Instant.before?_eq`).  Hence a peer lies before the
cutoff exactly if it is older than the age, and saturation is never seen
(`lt_cutoffBefore_iff`).  The formula also gives the cutoff as an instant, its range,
and how it grows with the time and the age (`cutoff_is_saturating_subtraction`).
-/
import Presence.Time.Clock

namespace Presence

/-- The nanoseconds of the age are below one second. -/
def Age.Ordinary (a : Age) : Prop := a.nano < nanosPerSecond

namespace Instant

/-- The instant is an ordinary one within the range that can be represented. -/
structure InRange (t : Instant) : Prop where
  ordinary : t.Ordinary
  earliest_le : earliest.toNanos ≤ t.toNanos
  le_latest : t.toNanos ≤ latest.toNanos

theorem earliest_ordinary : earliest.Ordinary := by
  unfold Ordinary
  decide

end Instant

/-! ### Readings of a clock -/

namespace Clock

theorem now?_eq_some_iff {c : Clock} {t : Instant} :
    c.now? = some t ↔ c.Readable ∧ t = Instant.ofNanos c.nanos := by
  simp only [now?]
  split <;> simp_all [eq_comm]

/-- What a clock shows can be represented, and is not before 1970. -/
theorem inRange_of_now? {c : Clock} {t : Instant} (h : c.now? = some t) :
    t.InRange ∧ 0 ≤ t.toNanos := by
  obtain ⟨⟨hlo, hhi⟩, rfl⟩ := now?_eq_some_iff.1 h
  refine ⟨⟨Instant.ofNanos_ordinary _, ?_, ?_⟩, ?_⟩
  · rw [Instant.toNanos_ofNanos]
    exact Int.le_trans (by decide) hlo
  · rwa [Instant.toNanos_ofNanos]
  · rwa [Instant.toNanos_ofNanos]

end Clock

/-! ### Subtracting an age -/

variable {now t : Instant} {age : Age}

namespace Instant

theorem toNanos_outsideLeap (t : Instant) : t.outsideLeap.toNanos = t.toNanos := by
  unfold outsideLeap
  split
  · rfl
  · simp only [toNanos, nanosPerSecond] at *
    omega

theorem outsideLeap_ordinary (ht : t.nano < 2 * nanosPerSecond) : t.outsideLeap.Ordinary := by
  unfold outsideLeap
  split
  · assumption
  · simp only [Ordinary, nanosPerSecond] at *
    omega

/-- The subtraction with a borrowed second is exact, inside a leap second too.  It ends inside one
only if no whole second is taken off. -/
theorem before?_eq (ht : t.nano < 2 * nanosPerSecond) (ha : age.Ordinary) :
    ∃ u : Instant, (t.Ordinary ∨ 0 < age.sec → u.Ordinary) ∧
      u.toNanos = t.toNanos - age.toNanos ∧
        t.before? age = if u < earliest then none else some u := by
  let s := if age.sec = 0 then t else t.outsideLeap
  have hsame : s.toNanos = t.toNanos := by
    by_cases hsec : age.sec = 0
    · simp only [s, if_pos hsec]
    · simp only [s, if_neg hsec, toNanos_outsideLeap]
  have hordinary : t.Ordinary ∨ 0 < age.sec → s.Ordinary := by
    rintro (h | h)
    · simp only [s, outsideLeap_of_ordinary h, ite_self]
      exact h
    · simp only [s, if_neg (Nat.ne_of_gt h)]
      exact outsideLeap_ordinary ht
  simp only [Ordinary, Age.Ordinary, toNanos, nanosPerSecond] at ha hsame hordinary
  by_cases hborrow : age.nano ≤ s.nano
  · refine ⟨⟨s.sec - age.sec, s.nano - age.nano⟩, ?_, ?_, ?_⟩
    · simp only [Ordinary, nanosPerSecond]
      omega
    · simp only [toNanos, Age.toNanos, nanosPerSecond]
      omega
    · show (if (if age.nano ≤ s.nano then _ else _) < earliest then none else some _) = _
      rw [if_pos hborrow]
  · refine ⟨⟨s.sec - age.sec - 1, s.nano + nanosPerSecond - age.nano⟩, ?_, ?_, ?_⟩
    · simp only [Ordinary, nanosPerSecond]
      omega
    · simp only [toNanos, Age.toNanos, nanosPerSecond]
      omega
    · show (if (if age.nano ≤ s.nano then _ else _) < earliest then none else some _) = _
      rw [if_neg hborrow]

/-- A leap second is left with whole seconds and not with nanoseconds. -/
example : (⟨59, 1500000000⟩ : Instant).before? ⟨1, 0⟩ = some ⟨59, 500000000⟩ ∧
    (⟨59, 1500000000⟩ : Instant).before? ⟨0, 300000000⟩ = some ⟨59, 1200000000⟩ := by decide

theorem before?_eq_of_ordinary (ht : t.Ordinary) (ha : age.Ordinary) :
    ∃ u : Instant, u.Ordinary ∧ u.toNanos = t.toNanos - age.toNanos ∧
      t.before? age = if u < earliest then none else some u := by
  have hnano : t.nano < 2 * nanosPerSecond := Nat.lt_of_lt_of_le ht (by decide)
  obtain ⟨u, hu, hrest⟩ := before?_eq hnano ha
  exact ⟨u, hu (Or.inl ht), hrest⟩

end Instant

theorem cutoffBefore_ordinary (hnow : now.Ordinary) (ha : age.Ordinary) :
    (cutoffBefore now age).Ordinary := by
  obtain ⟨u, hu, -, hbefore⟩ := Instant.before?_eq_of_ordinary hnow ha
  unfold cutoffBefore
  split
  · exact Instant.earliest_ordinary
  · rw [hbefore]
    split
    · exact Instant.earliest_ordinary
    · exact hu

/-- An age that is too long to be taken off reaches below all instants. -/
theorem reaches_below_earliest (hnow : now.InRange) (hlong : Age.longest.toNanos < age.toNanos) :
    now.toNanos - age.toNanos < Instant.earliest.toNanos := by
  have hlo : Instant.earliest.toNanos = -8334601228800000000000 := by decide
  have hhi : Instant.latest.toNanos = 8210266876799999999999 := by decide
  have hlongest : Age.longest.toNanos = 9223372036854775807000000 := by decide
  have hle := hnow.le_latest
  omega

/-- **The cutoff is exact saturating subtraction**, measured in nanoseconds. -/
theorem toNanos_cutoffBefore (hnow : now.InRange) (ha : age.Ordinary) :
    (cutoffBefore now age).toNanos =
      max (now.toNanos - age.toNanos) Instant.earliest.toNanos := by
  obtain ⟨u, hu, hdiff, hbefore⟩ := Instant.before?_eq_of_ordinary hnow.ordinary ha
  unfold cutoffBefore
  split
  · next hlong =>
    have := reaches_below_earliest hnow hlong
    omega
  · rw [hbefore]
    split
    · next hlt =>
      have := (Instant.toNanos_lt_toNanos hu Instant.earliest_ordinary).2 hlt
      rw [Option.getD_none]
      omega
    · next hlt =>
      have := mt (Instant.toNanos_lt_toNanos hu Instant.earliest_ordinary).1 hlt
      rw [Option.getD_some, hdiff]
      omega

/-- Before the cutoff lies what is older than the age, in exact arithmetic. -/
theorem lt_cutoffBefore_iff (hnow : now.InRange) (ht : t.InRange) (ha : age.Ordinary) :
    t < cutoffBefore now age ↔ (age.toNanos : Int) < now.toNanos - t.toNanos := by
  have hcut := toNanos_cutoffBefore hnow ha
  have hlo := ht.earliest_le
  rw [← Instant.toNanos_lt_toNanos ht.ordinary (cutoffBefore_ordinary hnow.ordinary ha)]
  omega

/-! ### The cutoff as an instant -/

namespace Instant

variable {s : Instant}

/-- An ordinary instant is known by its distance from 1970. -/
theorem ofNanos_toNanos (ht : t.Ordinary) : ofNanos t.toNanos = t := by
  obtain ⟨sec, nano⟩ := t
  simp only [Ordinary, nanosPerSecond] at ht
  simp only [ofNanos, toNanos, nanosPerSecond, mk.injEq]
  omega

/-- An instant that is not earlier than another lies no less far from 1970. -/
theorem toNanos_le_toNanos (hs : s.Ordinary) (ht : t.Ordinary) :
    s.toNanos ≤ t.toNanos ↔ ¬ t < s := by
  rw [← toNanos_lt_toNanos ht hs, Int.not_lt]

end Instant

theorem cutoffBefore_inRange (hnow : now.InRange) (ha : age.Ordinary) :
    (cutoffBefore now age).InRange := by
  have hcut := toNanos_cutoffBefore hnow ha
  have hlo := hnow.earliest_le
  have hhi := hnow.le_latest
  refine ⟨cutoffBefore_ordinary hnow.ordinary ha, ?_, ?_⟩ <;> omega

/-- No cutoff lies after the time it is taken at. -/
theorem not_lt_cutoffBefore (hnow : now.InRange) (ha : age.Ordinary) :
    ¬ now < cutoffBefore now age := by
  have hcut := toNanos_cutoffBefore hnow ha
  have hlo := hnow.earliest_le
  rw [← Instant.toNanos_le_toNanos (cutoffBefore_ordinary hnow.ordinary ha) hnow.ordinary]
  omega

/-- A later time and a shorter age do not give an earlier cutoff. -/
theorem cutoffBefore_mono {later : Instant} {longer : Age} (hnow : now.InRange)
    (hlater : later.InRange) (ha : age.Ordinary) (hlonger : longer.Ordinary)
    (htime : ¬ later < now) (hage : age.toNanos ≤ longer.toNanos) :
    ¬ cutoffBefore later age < cutoffBefore now longer := by
  have hcut := toNanos_cutoffBefore hnow hlonger
  have hcut' := toNanos_cutoffBefore hlater ha
  have hle := (Instant.toNanos_le_toNanos hnow.ordinary hlater.ordinary).2 htime
  rw [← Instant.toNanos_le_toNanos (cutoffBefore_ordinary hnow.ordinary hlonger)
    (cutoffBefore_ordinary hlater.ordinary ha)]
  omega

/-- **The cutoff is exact saturating subtraction**, as an instant.  For every time that can be
represented and every age it is the age before the time, or the earliest instant if that is later.
It can be represented and is not after the time.  A longer age does not give a later cutoff, nor a
later time an earlier one.  All this holds as well for the ages that are too long to be taken off:
they reach below the earliest instant from everywhere. -/
theorem cutoff_is_saturating_subtraction (hnow : now.InRange) (hage : age.Ordinary) :
    cutoffBefore now age =
        Instant.ofNanos (max (now.toNanos - age.toNanos) Instant.earliest.toNanos) ∧
      (cutoffBefore now age).InRange ∧ ¬ now < cutoffBefore now age ∧
      (∀ longer : Age, longer.Ordinary → age.toNanos ≤ longer.toNanos →
        ¬ cutoffBefore now age < cutoffBefore now longer) ∧
      (∀ later : Instant, later.InRange → ¬ later < now →
        ¬ cutoffBefore later age < cutoffBefore now age) ∧
      (Age.longest.toNanos < age.toNanos →
        now.toNanos - age.toNanos < Instant.earliest.toNanos) := by
  refine ⟨?_, cutoffBefore_inRange hnow hage, not_lt_cutoffBefore hnow hage, ?_, ?_, ?_⟩
  · rw [← toNanos_cutoffBefore hnow hage,
      Instant.ofNanos_toNanos (cutoffBefore_ordinary hnow.ordinary hage)]
  · intro longer hlonger hle
    refine cutoffBefore_mono hnow hnow hage hlonger ?_ hle
    exact (Instant.toNanos_le_toNanos hnow.ordinary hnow.ordinary).1 (Int.le_refl _)
  · intro later hlater hle
    exact cutoffBefore_mono hnow hlater hage hage hle (Nat.le_refl _)
  · intro hlong
    exact reaches_below_earliest hnow hlong

/-- A second after the earliest instant: an age for which a second is borrowed gives a cutoff within
reach, and the longest age there is, which is too long to be taken off, gives the earliest one. -/
theorem cutoff_is_saturating_subtraction_near_the_earliest :
    let now : Instant := ⟨-8334601228799, 0⟩
    let age : Age := ⟨0, 999999999⟩
    let longer : Age := ⟨18446744073709551615, 999999999⟩
    now.InRange ∧ age.Ordinary ∧ longer.Ordinary ∧ Age.longest.toNanos < longer.toNanos ∧
      cutoffBefore now age = ⟨-8334601228800, 1⟩ ∧ cutoffBefore now longer = Instant.earliest ∧
      ¬ cutoffBefore now age < cutoffBefore now longer := by
  intro now age longer
  have hordinary : now.Ordinary := by
    unfold Instant.Ordinary
    decide
  have hnow : now.InRange := ⟨hordinary, by decide, by decide⟩
  have hage : age.Ordinary := by
    unfold Age.Ordinary
    decide
  have hlonger : longer.Ordinary := by
    unfold Age.Ordinary
    decide
  obtain ⟨hcut, -, -, hshorter, -⟩ := cutoff_is_saturating_subtraction hnow hage
  obtain ⟨hcut', -⟩ := cutoff_is_saturating_subtraction hnow hlonger
  refine ⟨hnow, hage, hlonger, by decide, ?_, ?_, hshorter longer hlonger (by decide)⟩
  · rw [hcut]
    decide
  · rw [hcut']
    decide

end Presence
