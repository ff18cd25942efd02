/-
Presence/Proofs/SinkWrites.lean

What a sink has taken after a write.

`writeAll` goes through the bytes piece by piece, but all that remains of the
pieces is

    the bytes fit          everything is taken, and it succeeds;
    the bytes do not fit   as many are taken as there is room for, and it fails

(`writeAll_eq`).  How many bytes go at a time is not part of the result, as long
as it is not none.  The two writes of `sendLine` are then one write of the line
with its end, and a flush if it has succeeded (`sendLine_of_fits`,
`sendLine_of_not_fits`).
-/
import Presence.Console.Sink

namespace Presence

theorem Trail.append_append {α : Type} (t : Trail α) (l m : List α) :
    (t.append l).append m = t.append (l ++ m) := by
  simp [append, List.reverseAux_eq]

@[simp] theorem Trail.append_nil {α : Type} (t : Trail α) : t.append [] = t := rfl

namespace Sink

variable (s : Sink) (bytes more : List UInt8)

/-! ### Room -/

/-- There is room for this many bytes. -/
def Fits (s : Sink) (bytes : List UInt8) : Prop := ∀ room ∈ s.room, bytes.length ≤ room

instance : Decidable (s.Fits bytes) :=
  match h : s.room with
  | none => .isTrue (by simp [Fits, h])
  | some room => decidable_of_iff (bytes.length ≤ room) (by simp [Fits, h])

theorem fits_nil : s.Fits [] := fun room _ => Nat.zero_le room

/-- As many of the bytes as there is room for. -/
def taken (s : Sink) (bytes : List UInt8) : List UInt8 :=
  match s.room with
  | none => bytes
  | some room => bytes.take room

theorem taken_of_fits (h : s.Fits bytes) : s.taken bytes = bytes := by
  unfold taken
  split
  · rfl
  · next room hroom => exact List.take_of_length_le (h room hroom)

/-! ### Pushing -/

@[simp] theorem room_push : (s.push bytes).room = s.room.map (· - bytes.length) := rfl

@[simp] theorem chunk_push : (s.push bytes).chunk = s.chunk := rfl

@[simp] theorem push_nil : s.push [] = s := by
  obtain ⟨room, chunk, written, flushes⟩ := s
  cases room <;> rfl

theorem push_push : (s.push bytes).push more = s.push (bytes ++ more) := by
  obtain ⟨room, chunk, written, flushes⟩ := s
  cases room with
  | none => simp [push, Trail.append_append]
  | some room => simp [push, Trail.append_append, Nat.sub_sub]

theorem fits_append : s.Fits (bytes ++ more) ↔ s.Fits bytes ∧ (s.push bytes).Fits more := by
  rcases hroom : s.room with - | room
  · simp [Fits, hroom]
  · simp only [Fits, hroom, room_push, Option.map_some, Option.mem_some, forall_eq',
      List.length_append]
    omega

/-- What is taken of two pieces: the first one, and of the second what there is room for then. -/
theorem taken_append (h : s.Fits bytes) :
    s.taken (bytes ++ more) = bytes ++ (s.push bytes).taken more := by
  rcases hroom : s.room with - | room
  · simp [taken, hroom]
  · have hle : bytes.length ≤ room := h room hroom
    simp [taken, hroom, List.take_append, List.take_of_length_le hle]

/-- What does not fit by itself does not fit with more behind it, and leaves no room for that. -/
theorem taken_append_of_not_fits (h : ¬ s.Fits bytes) :
    s.taken (bytes ++ more) = s.taken bytes := by
  rcases hroom : s.room with - | room
  · simp [Fits, hroom] at h
  · have hlt : room < bytes.length := by simpa [Fits, hroom] using h
    simp [taken, hroom, List.take_append, Nat.sub_eq_zero_of_le (Nat.le_of_lt hlt)]

/-! ### Writing -/

/-- One go takes no more than there is room for, and nothing only if there is no room. -/
theorem limit_eq_some {n : Nat} (h : s.limit = some n) :
    (∀ room ∈ s.room, n ≤ room) ∧ (n = 0 → s.chunk ≠ some 0 → s.room = some 0) := by
  unfold limit at h
  rcases hroom : s.room with - | room <;> rcases hchunk : s.chunk with - | chunk <;>
    simp only [hroom, hchunk] at h
  · simp at h
  · obtain rfl := Option.some.inj h
    exact ⟨by simp, by simp⟩
  · obtain rfl := Option.some.inj h
    exact ⟨by simp, by simp⟩
  · have hmin := Option.some.inj h
    refine ⟨?_, ?_⟩
    · intro room' hroom'
      obtain rfl := Option.some.inj hroom'
      omega
    · rintro rfl hpos
      have hpos' : chunk ≠ 0 := fun hzero => hpos (by rw [hzero])
      congr 1
      omega

theorem limit_eq_none (h : s.limit = none) : s.room = none := by
  unfold limit at h
  rcases hroom : s.room with - | room
  · rfl
  · rcases hchunk : s.chunk with - | chunk <;> simp [hroom, hchunk] at h

/-- **A write takes what there is room for**, whatever the size of the pieces, and succeeds if this
is all. -/
theorem writeAll_eq (hchunk : s.chunk ≠ some 0) :
    s.writeAll bytes = (decide (s.Fits bytes), s.push (s.taken bytes)) := by
  -- the induction is that of the writes: one piece, and then what is left
  induction s, bytes using writeAll.induct with
  | case1 s =>
    rw [writeAll, s.taken_of_fits [] s.fits_nil, push_nil, decide_eq_true s.fits_nil]
  | case2 s b rest hlimit =>
    have hroom := s.limit_eq_none hlimit
    have hfits : s.Fits (b :: rest) := by simp [Fits, hroom]
    rw [writeAll, hlimit, s.taken_of_fits _ hfits, decide_eq_true hfits]
  | case3 s b rest hlimit =>
    have hroom := (s.limit_eq_some hlimit).2 rfl hchunk
    have hfits : ¬ s.Fits (b :: rest) := by simp [Fits, hroom]
    have htaken : s.taken (b :: rest) = [] := by simp [taken, hroom]
    rw [writeAll, hlimit, htaken, push_nil, decide_eq_false hfits]
  | case4 s b rest n hlimit ih =>
    -- the piece fits, and what is left of the bytes goes into what is left of the room
    have hsplit : b :: rest = (b :: rest.take n) ++ rest.drop n := by simp
    have hpiece : s.Fits (b :: rest.take n) := by
      intro room hroom
      have hle := (s.limit_eq_some hlimit).1 room hroom
      simp only [List.length_cons, List.length_take]
      omega
    have hfits : (s.push (b :: rest.take n)).Fits (rest.drop n) ↔ s.Fits (b :: rest) := by
      rw [hsplit, fits_append]
      exact (and_iff_right hpiece).symm
    have htaken : s.taken (b :: rest) =
        (b :: rest.take n) ++ (s.push (b :: rest.take n)).taken (rest.drop n) := by
      rw [← s.taken_append _ _ hpiece, ← hsplit]
    rw [writeAll, hlimit, htaken, ← push_push, ← decide_eq_decide.2 hfits]
    exact ih hchunk

/-! ### Lines -/

/-- A line and a line feed, as bytes. -/
def lineBytes (text : String) : List UInt8 := text.toUTF8.toList ++ [10]

/-- The sink after it has taken these bytes and has been flushed so often. -/
def advance (s : Sink) (bytes : List UInt8) (n : Nat) : Sink :=
  { s.push bytes with flushes := s.flushes + n }

@[simp] theorem advance_nil : s.advance [] 0 = s := s.push_nil

theorem advance_zero : s.advance bytes 0 = s.push bytes := rfl

@[simp] theorem toList_written_advance (n : Nat) :
    (s.advance bytes n).written.toList = s.written.toList ++ bytes :=
  Trail.toList_append s.written bytes

@[simp] theorem flushes_advance (n : Nat) : (s.advance bytes n).flushes = s.flushes + n := rfl

@[simp] theorem chunk_advance (n : Nat) : (s.advance bytes n).chunk = s.chunk := rfl

theorem advance_advance (m n : Nat) :
    (s.advance bytes m).advance more n = s.advance (bytes ++ more) (m + n) := by
  unfold advance
  rw [← push_push, ← Nat.add_assoc]
  rfl

/-- Flushes do not count for what fits. -/
theorem fits_append_advance (n : Nat) :
    s.Fits (bytes ++ more) ↔ s.Fits bytes ∧ (s.advance bytes n).Fits more :=
  s.fits_append bytes more

theorem taken_append_advance (h : s.Fits bytes) (n : Nat) :
    s.taken (bytes ++ more) = bytes ++ (s.advance bytes n).taken more :=
  s.taken_append bytes more h

theorem sendLine_of_fits (hchunk : s.chunk ≠ some 0) {text : String}
    (h : s.Fits (lineBytes text)) :
    s.sendLine text = (true, s.advance (lineBytes text) 1) := by
  obtain ⟨htext, hend⟩ := (s.fits_append _ _).1 h
  have hchunk' : (s.push text.toUTF8.toList).chunk ≠ some 0 := hchunk
  have hfirst : s.writeAll text.toUTF8.toList = (true, s.push text.toUTF8.toList) := by
    rw [s.writeAll_eq _ hchunk, decide_eq_true htext, s.taken_of_fits _ htext]
  have hsecond : (s.push text.toUTF8.toList).writeAll [10] = (true, s.push (lineBytes text)) := by
    rw [writeAll_eq _ _ hchunk', decide_eq_true hend, taken_of_fits _ _ hend, push_push]
    rfl
  unfold sendLine
  rw [hfirst]
  dsimp only
  rw [hsecond]
  rfl

theorem sendLine_of_not_fits (hchunk : s.chunk ≠ some 0) {text : String}
    (h : ¬ s.Fits (lineBytes text)) :
    s.sendLine text = (false, s.advance (s.taken (lineBytes text)) 0) := by
  unfold sendLine
  rw [s.writeAll_eq _ hchunk, advance_zero]
  by_cases htext : s.Fits text.toUTF8.toList
  · -- the text fits, but not the end of the line
    have hend : ¬ (s.push text.toUTF8.toList).Fits [10] :=
      fun hend => h ((s.fits_append _ _).2 ⟨htext, hend⟩)
    have htaken : s.taken (lineBytes text) =
        text.toUTF8.toList ++ (s.push text.toUTF8.toList).taken [10] := s.taken_append _ _ htext
    rw [decide_eq_true htext, s.taken_of_fits _ htext, htaken, ← push_push]
    dsimp only
    have hchunk' : (s.push text.toUTF8.toList).chunk ≠ some 0 := hchunk
    rw [writeAll_eq _ _ hchunk', decide_eq_false hend]
  · have htaken : s.taken (lineBytes text) = s.taken text.toUTF8.toList :=
      s.taken_append_of_not_fits _ _ htext
    rw [decide_eq_false htext, htaken]

end Sink

end Presence
