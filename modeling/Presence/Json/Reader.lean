/-
Presence/Json/Reader.lean

Reading sightings and registries from JSON.

A sighting is an object in which `content` and `last_seen` occur once each, in
any order and among any other members, which are passed over; or an array of
the content and the time.  A registry is an object from ids to sightings; of
several members with one id the last one stays.

Members are read from left to right and the first flaw is reported.  A member
that occurs twice is unfit as soon as its second key has been read, a missing
one when the object closes.
-/
import Presence.Json.Scan
import Presence.Registry
import Presence.Time.Timestamp.Reader

namespace Presence.Json

/-- A text. -/
def readText : Scan (List Char) := do
  match ← peek with
  | none => throw .truncated
  | some c => if c = '"' then stringText else unfitValue

/-- An instant, written as a text. -/
def readInstant : Scan Instant := do
  match Instant.ofTimestamp? (← readText) with
  | some t => return t
  | none => throw .unfit

/-- Looks for the next member of an object behind its opening bracket; tells whether there is
one.  `first` holds until a member has been read. -/
def nextMember (first : Bool) : Scan Bool := do
  match ← peek with
  | none => throw .truncated
  | some c =>
    if c = '\x7d' then return false
    if first then
      if c = '"' then return true else throw .malformed
    if c ≠ ',' then throw .malformed
    skip
    match ← peek with
    | none => throw .truncated
    | some d => if d = '"' then return true else throw .malformed

/-! ### Sightings -/

/-- The members of a sighting read so far. -/
structure Draft where
  content : Option String := none
  lastSeen : Option Instant := none

/-- The sighting, if both members have been read. -/
def Draft.finish? (d : Draft) : Option Sighting := do
  return ⟨← d.content, ← d.lastSeen⟩

/-- Reads a member whose key comes next. -/
def readMember (d : Draft) : Scan Draft := do
  let key ← stringText
  if key = "content".toList then
    if d.content.isSome then throw .unfit
    punctuation ':'
    return { d with content := some (String.ofList (← readText)) }
  if key = "last_seen".toList then
    if d.lastSeen.isSome then throw .unfit
    punctuation ':'
    return { d with lastSeen := some (← readInstant) }
  punctuation ':'
  passValue
  return d

/-- Reads members up to the closing bracket, of which `fuel` bounds the number. -/
def readMembers : (fuel : Nat) → (first : Bool) → Draft → Scan Sighting
  | 0, _, _ => throw .truncated
  | fuel + 1, first, d => do
    if ← nextMember first then
      readMembers fuel false (← readMember d)
    else
      match d.finish? with
      | some s =>
        skip
        return s
      | none => throw .unfit

/-- Looks for the next element of an array that needs one; the array is unfit if it closes. -/
def neededElement (first : Bool) : Scan Unit := do
  match ← peek with
  | none => throw .truncated
  | some c =>
    if c = ']' then throw .unfit
    if first then return
    if c ≠ ',' then throw .malformed
    skip
    match ← peek with
    | none => throw .truncated
    | some d => if d = ']' then throw .malformed

/-- Reads a sighting behind the opening bracket of an array. -/
def readPair : Scan Sighting := do
  neededElement true
  let content ← readText
  neededElement false
  let lastSeen ← readInstant
  punctuation ']'
  return ⟨String.ofList content, lastSeen⟩

/-- Reads a sighting. -/
def readSighting : Scan Sighting := do
  match ← peek with
  | none => throw .truncated
  | some c =>
    if c = '[' then
      skip
      readPair
    else if c = '\x7b' then
      skip
      readMembers (← get).length.succ true {}
    else unfitValue

/-! ### Registries -/

/-- Reads ids and sightings up to the closing bracket, of which `fuel` bounds the number. -/
def readEntries : (fuel : Nat) → (first : Bool) → Registry → Scan Registry
  | 0, _, _ => throw .truncated
  | fuel + 1, first, r => do
    if ← nextMember first then
      let id ← stringText
      punctuation ':'
      let s ← readSighting
      readEntries fuel false (r.insert (String.ofList id) s)
    else
      skip
      return r

/-- Reads a registry. -/
def readRegistry : Scan Registry := do
  match ← peek with
  | none => throw .truncated
  | some c =>
    if c = '\x7b' then
      skip
      readEntries (← get).length.succ true Registry.empty
    else unfitValue

/-! ### Whole texts -/

/-- Reads a text to its end, where only blanks may follow. -/
def readAll {α : Type} (scan : Scan α) (text : String) : Except Flaw α := do
  let (a, rest) ← scan text.toList
  if rest.all isSpace then return a else throw .malformed

/-- The sighting that a text holds as JSON. -/
def sightingOf (text : String) : Except Flaw Sighting := readAll readSighting text

/-- The registry that a text holds as JSON. -/
def registryOf (text : String) : Except Flaw Registry := readAll readRegistry text

end Presence.Json
