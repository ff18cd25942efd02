/-
Presence/Proofs/Timestamps.lean

A timestamp says all there is to an instant.

The reader of timestamps is taken through what the writer has written, part by
part.  Each part is a run of digits that stands for a number (`Text.Writes`), and
the reader knows where it ends: by its width, or because what comes behind is no
digit.  For a fraction the width that has been chosen is given back by the power of
ten that is missing.

    year    four digits, or a sign and as many as it takes
    date    the calendar is undone by `Date.toDays_ofDays`
    time    the second 60 stands for the leap second behind 59

Main result: every instant that can be represented is read back
(`Instant.ofTimestamp?_timestamp`).
-/
import Presence.Proofs.Dates
import Presence.Proofs.Digits
import Presence.Proofs.Reading
import Presence.Time.Timestamp.Reader

namespace Presence

namespace Timestamp

open Text

variable {rest : List Char}

/-! ### Pieces -/

theorem reads_blanks (h : ∀ c ∈ rest.head?, isBlank c = false) : Reads blanks [] () rest := by
  have hskip : skipBlanks rest = rest := by
    rcases rest with - | ⟨c, rest⟩
    · rfl
    · exact List.dropWhile_cons_of_neg (by simp [h c rfl])
  show Option.some ((), skipBlanks rest) = some ((), rest)
  rw [hskip]

theorem reads_expect (c : Char) : Reads (expect c) [c] () rest := by
  refine Reads.get ?_
  show Reads (if c = c then set rest else failure) [c] () rest
  rw [if_pos rfl]
  exact Reads.set

/-- Digits are taken up to the greatest number of them, or up to what is no digit. -/
theorem reads_digits {most n : Nat} {ds : List Char} (h : Writes n ds) (hmost : ds.length ≤ most)
    (hend : ds.length = most ∨ ∀ c ∈ rest.head?, c.isDigit = false) :
    Reads (digits most) ds ds rest := by
  have hnoMore : (rest.take (most - ds.length)).takeWhile Char.isDigit = [] := by
    obtain hfull | hother := hend
    · rw [hfull, Nat.sub_self]
      rfl
    · rcases most - ds.length with - | room
      · rfl
      · rcases rest with - | ⟨c, rest⟩
        · rfl
        · exact List.takeWhile_cons_of_neg (by simp [hother c rfl])
  have htaken : ((ds ++ rest).take most).takeWhile Char.isDigit = ds := by
    rw [List.take_append, List.take_of_length_le hmost, List.takeWhile_append_of_pos h.isDigit,
      hnoMore, List.append_nil]
  have hempty : ds.isEmpty = false := by simp [h.nonempty]
  refine Reads.get ?_
  show Reads _ ds ds rest
  dsimp only
  rw [htaken, hempty, List.drop_left]
  exact Reads.set.map _

/-- Two digits behind which anything may come. -/
theorem reads_part {n : Nat} (h : n < 100) : Reads part (padded 2 n) n rest := by
  have hwrites : Writes n (padded 2 n) := writes_padded (by decide) h
  have hdigits : Reads (digits 2) (padded 2 n) (padded 2 n) rest :=
    reads_digits hwrites (by simp) (Or.inl (by simp))
  have hpart := hdigits.map digitsValue
  rw [hwrites.value] at hpart
  exact Reads.ahead (reads_blanks (hwrites.not_blank rest)) hpart

/-- A mark between two parts. -/
theorem reads_mark {c : Char} (hc : isBlank c = false) {β : Type} {x : Reader β}
    {front : List Char} {b : β} (h : Reads x front b rest) :
    Reads (do blanks; expect c; x) (c :: front) b rest := by
  have hblanks : Reads blanks [] () (c :: front ++ rest) := reads_blanks (by simpa using hc)
  exact hblanks.ahead ((reads_expect c).bind h)

/-! ### Years -/

/-- A sign and digits, as far as they go. -/
theorem reads_signed {n : Nat} {ds : List Char} (h : Writes n ds)
    (hend : ∀ c ∈ rest.head?, c.isDigit = false) :
    Reads yearPart ('-' :: ds) (-(n : Int)) rest ∧ Reads yearPart ('+' :: ds) (n : Int) rest := by
  have hdigits : Reads (digits (ds ++ rest).length) ds ds rest :=
    reads_digits h (by simp) (Or.inr hend)
  have hminus := hdigits.map fun ds => -(digitsValue ds : Int)
  have hplus := hdigits.map fun ds => (digitsValue ds : Int)
  rw [h.value] at hminus hplus
  exact ⟨hminus, hplus⟩

theorem reads_year {y : Int} (hend : ∀ c ∈ rest.head?, c.isDigit = false) :
    Reads yearPart (year y) y rest := by
  unfold year
  split
  · next hplain =>
    have hwrites : Writes y.toNat (padded 4 y.toNat) := writes_padded (by decide) (by omega)
    have hdigits : Reads (digits 4) (padded 4 y.toNat) (padded 4 y.toNat) rest :=
      reads_digits hwrites (by simp) (Or.inl (by simp))
    have hvalue := hdigits.map fun ds => (digitsValue ds : Int)
    rw [hwrites.value, Int.toNat_of_nonneg hplain.1] at hvalue
    refine Reads.ahead (reads_blanks (hwrites.not_blank rest)) (Reads.get ?_)
    -- the first digit is no sign
    split
    · next _ heq =>
      exact absurd (hwrites.isDigit_of_cons heq) (by decide)
    · next _ heq =>
      exact absurd (hwrites.isDigit_of_cons heq) (by decide)
    · exact hvalue
  · next hsigned =>
    have hwrites : Writes y.natAbs
        (if y.natAbs ≤ 9999 then padded 4 y.natAbs else decimal y.natAbs) := by
      split
      · exact writes_padded (by decide) (by omega)
      · exact writes_decimal _
    obtain ⟨hminus, hplus⟩ := reads_signed hwrites hend
    split
    · rwa [show -(y.natAbs : Int) = y by omega] at hminus
    · rwa [show (y.natAbs : Int) = y by omega] at hplus

/-! ### Dates -/

theorem reads_date {d : Date} (hvalid : d.Valid) : Reads datePart (date d) d rest := by
  have hmonth := hvalid.2.1
  have hday := hvalid.day_le
  have hlast : Reads (do
      let day ← part
      if Date.Valid ⟨d.year, d.month, day⟩ then return ⟨d.year, d.month, day⟩ else failure)
      (padded 2 d.day) d rest := by
    refine (reads_part (by omega)).last ?_
    rw [if_pos hvalid]
    exact Reads.pure
  unfold date
  rw [List.append_assoc]
  refine (reads_year (by simp)).bind (reads_mark (by decide) ?_)
  exact (reads_part (by omega)).bind (reads_mark (by decide) hlast)

/-! ### Times of day -/

/-- The fraction, and the power of ten that makes nanoseconds of it. -/
theorem reads_point (n width : Nat) (hwidth : 0 < width) (hwidth' : width ≤ 9)
    (h : n < 10 ^ width) (hend : ∀ c ∈ rest.head?, c.isDigit = false) :
    Reads fractionPart ('.' :: padded width n) (n * 10 ^ (9 - width)) rest := by
  have hwrites : Writes n (padded width n) := writes_padded hwidth h
  have hdigits : Reads (digits (padded width n ++ rest).length) (padded width n)
      (padded width n) rest := reads_digits hwrites (by simp) (Or.inr hend)
  have hnanos : fractionNanos (padded width n) = n * 10 ^ (9 - width) := by
    rw [fractionNanos, List.take_of_length_le (by simpa using hwidth'), hwrites.value,
      length_padded]
    rfl
  have hpoint := hdigits.map fractionNanos
  rw [hnanos] at hpoint
  exact hpoint

theorem reads_fraction {nano : Nat} (h : nano < nanosPerSecond)
    (hend : ∀ c ∈ rest.head?, c.isDigit = false) (hpoint : rest.head? ≠ some '.') :
    Reads fractionPart (fraction nano) nano rest := by
  rw [nanosPerSecond] at h
  unfold fraction
  split
  · next hzero =>
    obtain rfl := hzero
    refine Reads.get ?_
    split
    · next heq => simp_all
    · exact Reads.pure
  · split
    · next hmillis =>
      have hread := reads_point (nano / 1000000) 3 (by decide) (by decide) (by omega) hend
      rwa [show nano / 1000000 * 10 ^ (9 - 3) = nano by omega] at hread
    · split
      · next hmicros =>
        have hread := reads_point (nano / 1000) 6 (by decide) (by decide) (by omega) hend
        rwa [show nano / 1000 * 10 ^ (9 - 6) = nano by omega] at hread
      · have hread := reads_point nano 9 (by decide) (by decide) (by omega) hend
        rwa [show nano * 10 ^ (9 - 9) = nano by omega] at hread

theorem reads_time {second nano : Nat} (hsecond : second < secondsPerDay)
    (hnano : nano < nanosPerSecond ∨ second % 60 = 59 ∧ nano < 2 * nanosPerSecond)
    (hend : ∀ c ∈ rest.head?, c.isDigit = false) (hpoint : rest.head? ≠ some '.') :
    Reads timePart (time second nano) (second, nano) rest := by
  simp only [secondsPerDay, nanosPerSecond] at hsecond hnano
  unfold time
  rw [List.append_assoc, List.append_assoc, nanosPerSecond]
  refine (reads_part (by omega)).bind (reads_mark (by decide) ?_)
  refine (reads_part (by omega)).bind (reads_mark (by decide) ?_)
  refine (reads_part (by omega)).bind ?_
  dsimp only
  rw [if_neg (by omega)]
  refine (reads_fraction (Nat.mod_lt nano (by decide)) hend hpoint).last ?_
  split
  · next hleap =>
    -- the second 60 is the leap second behind 59
    have hwhole : 3600 * (second / 3600) + 60 * (second / 60 % 60) + 59 = second := by omega
    have hrest : nanosPerSecond + nano % nanosPerSecond = nano := by
      rw [nanosPerSecond]
      omega
    rw [hwhole, hrest]
    exact Reads.pure
  · next hplain =>
    have hwhole : 3600 * (second / 3600) + 60 * (second / 60 % 60) +
        (second % 60 + nano / 1000000000) = second := by omega
    have hrest : nano % nanosPerSecond = nano := by
      rw [nanosPerSecond]
      omega
    rw [hwhole, hrest]
    exact Reads.pure

/-! ### Whole timestamps -/

theorem reads_separator : Reads separator ['T'] () rest :=
  Reads.get Reads.set

theorem reads_zulu : Reads zonePart ['Z'] 0 rest :=
  Reads.ahead (reads_blanks (by simp; decide)) (Reads.get (Reads.set.map fun _ => 0))

end Timestamp

/-- The instant can be represented: its second lies in the range, and it is ordinary or lies in the
leap second behind a second 59. -/
def Instant.Representable (t : Instant) : Prop :=
  Timestamp.inRange t.sec ∧
    (t.nano < nanosPerSecond ∨ t.sec % 60 = 59 ∧ t.nano < 2 * nanosPerSecond)

instance (t : Instant) : Decidable t.Representable := inferInstanceAs (Decidable (_ ∧ _))

theorem Timestamp.reads_instant {t : Instant} (h : t.Representable) :
    Reads instantPart t.timestamp t [] := by
  obtain ⟨hrange, hnano⟩ := h
  have hsecond : (t.sec % secondsPerDay).toNat < secondsPerDay := by
    rw [secondsPerDay]
    omega
  have hleap : (t.sec % secondsPerDay).toNat % 60 = t.sec % 60 := by
    rw [secondsPerDay]
    omega
  have hwhole : t.sec / secondsPerDay * secondsPerDay + (t.sec % secondsPerDay).toNat = t.sec := by
    rw [secondsPerDay]
    omega
  have hlayout : t.timestamp = date (Date.ofDays (t.sec / secondsPerDay)) ++
      (['T'] ++ (time (t.sec % secondsPerDay).toNat t.nano ++ ['Z'])) := by
    simp [Instant.timestamp]
  rw [hlayout]
  refine (reads_date (Date.valid_ofDays _)).bind (reads_separator.bind ?_)
  refine (reads_time hsecond (by omega) (by simp) (by simp)).bind (reads_zulu.last ?_)
  refine (reads_blanks (by simp)).last ?_
  dsimp only
  rw [Date.toDays_ofDays, hwhole, Int.sub_zero, if_pos ⟨hrange, hrange⟩]
  exact Reads.pure

/-- **A timestamp says all there is to an instant.**  Every instant that can be represented is the
one that its timestamp names. -/
theorem Instant.ofTimestamp?_timestamp {t : Instant} (h : t.Representable) :
    Instant.ofTimestamp? t.timestamp = some t := by
  have hread : Timestamp.instantPart (t.timestamp ++ []) = some (t, []) := Timestamp.reads_instant h
  rw [List.append_nil] at hread
  rw [ofTimestamp?, hread]

/-- A leap second, and the first and the last instant that can be represented. -/
example : Instant.timestamp ⟨1483228799, 1500000000⟩ = "2016-12-31T23:59:60.500Z".toList ∧
    Instant.earliest.timestamp = "-262143-01-01T00:00:00Z".toList ∧
    Instant.latest.timestamp = "+262142-12-31T23:59:59.999999999Z".toList := by
  decide

end Presence
