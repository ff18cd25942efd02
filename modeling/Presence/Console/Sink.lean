/-
Presence/Console/Sink.lean

Where the console writes.

A `Sink` takes bytes, a bounded number at a time where `chunk` says so, and no
more than `room` in all where that is set.  It fails when it is given bytes and
can take none.  `writeAll` goes on writing until all bytes are taken or the sink
fails; what was taken before the failure stays written.
-/
import Presence.Trail

namespace Presence

/-- A place for bytes, possibly a limited one. -/
structure Sink where
  /-- How many bytes it still takes; no limit if missing. -/
  room : Option Nat := none
  /-- How many bytes it takes at a time; no limit if missing. -/
  chunk : Option Nat := none
  /-- The bytes taken so far. -/
  written : Trail UInt8 := .empty
  /-- How often it has been flushed. -/
  flushes : Nat := 0
  deriving DecidableEq, Repr

namespace Sink

/-- How many bytes are taken at one go, at the most; no limit if missing. -/
def limit (s : Sink) : Option Nat :=
  match s.room, s.chunk with
  | some room, some chunk => some (min room chunk)
  | some room, none => some room
  | none, chunk => chunk

/-- The sink after it has taken these bytes. -/
def push (s : Sink) (bytes : List UInt8) : Sink :=
  { s with written := s.written.append bytes, room := s.room.map (· - bytes.length) }

/-- Writes bytes until all are taken or the sink fails; tells whether all were. -/
def writeAll (s : Sink) (bytes : List UInt8) : Bool × Sink :=
  match bytes with
  | [] => (true, s)
  | b :: rest =>
    match s.limit with
    | none => (true, s.push (b :: rest))
    | some 0 => (false, s)
    | some (n + 1) => writeAll (s.push (b :: rest.take n)) (rest.drop n)
termination_by bytes.length
decreasing_by
  simp only [List.length_drop, List.length_cons]
  omega

/-- Writes a text, a line feed and then flushes; tells whether all was taken. -/
def sendLine (s : Sink) (text : String) : Bool × Sink :=
  match s.writeAll text.toUTF8.toList with
  | (false, s) => (false, s)
  | (true, s) =>
    match s.writeAll [10] with
    | (false, s) => (false, s)
    | (true, s) => (true, { s with flushes := s.flushes + 1 })

end Sink

end Presence
