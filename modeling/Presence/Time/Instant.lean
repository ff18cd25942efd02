/-
Presence/Time/Instant.lean

Points in time and ages.

An `Instant` counts whole seconds since 1970-01-01T00:00:00Z and nanoseconds
into the second.  The nanoseconds of an ordinary instant are below one second;
one second and more marks the leap second that follows.  Instants are ordered by
the seconds and then by the nanoseconds, which for ordinary instants is the
order of `toNanos`, their distance from 1970 in nanoseconds.

The instants that can be represented run from `earliest`, the start of the year
-262143, to `latest`, one nanosecond before the year 262143.

`cutoffBefore now age` is the instant `age` before `now`, or `earliest` if that
lies further back.  No clock shows a time inside a leap second, but a cutoff can be
asked for at one: of such a time only nanoseconds are taken off within the leap
second, and with whole seconds it counts as the beginning of the second behind it.
-/

namespace Presence

/-- Nanoseconds in a second. -/
def nanosPerSecond : Nat := 1000000000

/-- A point in time. -/
structure Instant where
  /-- Whole seconds since 1970-01-01T00:00:00Z. -/
  sec : Int
  /-- Nanoseconds into the second; one second or more in a leap second. -/
  nano : Nat
  deriving DecidableEq, Repr

namespace Instant

/-- Distance from 1970-01-01T00:00:00Z in nanoseconds. -/
def toNanos (t : Instant) : Int := t.sec * nanosPerSecond + t.nano

/-- The ordinary instant at a distance from 1970-01-01T00:00:00Z. -/
def ofNanos (n : Int) : Instant := ⟨n / nanosPerSecond, (n % nanosPerSecond).toNat⟩

/-- The instant is not inside a leap second. -/
def Ordinary (t : Instant) : Prop := t.nano < nanosPerSecond

/-- Earlier seconds come first, and earlier nanoseconds within a second. -/
instance : LT Instant := ⟨fun s t => s.sec < t.sec ∨ s.sec = t.sec ∧ s.nano < t.nano⟩

theorem lt_iff {s t : Instant} :
    s < t ↔ s.sec < t.sec ∨ s.sec = t.sec ∧ s.nano < t.nano := Iff.rfl

instance (s t : Instant) : Decidable (s < t) := decidable_of_iff _ lt_iff.symm

/-- The first instant that can be represented, -262143-01-01T00:00:00Z. -/
def earliest : Instant := ⟨-8334601228800, 0⟩

/-- The last instant that can be represented, +262142-12-31T23:59:59.999999999Z. -/
def latest : Instant := ⟨8210266876799, 999999999⟩

theorem toNanos_lt_toNanos {s t : Instant} (hs : s.Ordinary) (ht : t.Ordinary) :
    s.toNanos < t.toNanos ↔ s < t := by
  simp only [Ordinary, nanosPerSecond] at hs ht
  simp only [toNanos, lt_iff, nanosPerSecond]
  omega

theorem ofNanos_ordinary (n : Int) : (ofNanos n).Ordinary := by
  simp only [Ordinary, ofNanos, nanosPerSecond]
  omega

@[simp] theorem toNanos_ofNanos (n : Int) : (ofNanos n).toNanos = n := by
  simp only [toNanos, ofNanos, nanosPerSecond]
  omega

end Instant

/-- A length of time that is not negative. -/
structure Age where
  /-- Whole seconds. -/
  sec : Nat
  /-- Nanoseconds beyond them, ordinarily below one second. -/
  nano : Nat
  deriving DecidableEq, Repr

namespace Age

/-- An age of whole seconds. -/
def ofSeconds (n : Nat) : Age := ⟨n, 0⟩

/-- The age in nanoseconds. -/
def toNanos (a : Age) : Nat := a.sec * nanosPerSecond + a.nano

/-- The longest age that is taken off an instant, `2^63 - 1` milliseconds.  It is longer than
the whole range of instants. -/
def longest : Age := ⟨9223372036854775, 807000000⟩

end Age

namespace Instant

/-- The instant with the nanoseconds of a leap second counted to the second behind it. -/
def outsideLeap (t : Instant) : Instant :=
  if t.nano < nanosPerSecond then t else ⟨t.sec + 1, t.nano - nanosPerSecond⟩

/-- The instant `a` before `t`, with a second borrowed where the nanoseconds need one; nothing
if it lies before `earliest`.  A leap second is left as soon as whole seconds are taken off. -/
def before? (t : Instant) (a : Age) : Option Instant :=
  let s := if a.sec = 0 then t else t.outsideLeap
  let u : Instant :=
    if a.nano ≤ s.nano then ⟨s.sec - a.sec, s.nano - a.nano⟩
    else ⟨s.sec - a.sec - 1, s.nano + nanosPerSecond - a.nano⟩
  if u < earliest then none else some u

theorem outsideLeap_of_ordinary {t : Instant} (h : t.Ordinary) : t.outsideLeap = t := if_pos h

end Instant

/-- The instant `age` before `now`, or the earliest one if that is out of reach. -/
def cutoffBefore (now : Instant) (age : Age) : Instant :=
  if Age.longest.toNanos < age.toNanos then Instant.earliest
  else (now.before? age).getD Instant.earliest

end Presence
