/-
Presence/Json/Writer.lean

Compact JSON for sightings, registries and lists of ids.

There are no blanks between tokens.  A sighting is an object with the members
`content` and `last_seen`, in this order; a registry is an object from ids to
sightings, ids ascending.  In strings only the quote, the backslash and the
characters below U+0020 are escaped, those with a letter of their own by it and
the rest by four lower-case hexadecimal digits.
-/
import Presence.Registry
import Presence.Time.Timestamp

namespace Presence.Json

/-- A character inside a JSON string. -/
def stringChar (c : Char) : List Char :=
  if c = '"' then ['\\', '"']
  else if c = '\\' then ['\\', '\\']
  else if c = '\x08' then ['\\', 'b']
  else if c = '\x0c' then ['\\', 'f']
  else if c = '\n' then ['\\', 'n']
  else if c = '\r' then ['\\', 'r']
  else if c = '\t' then ['\\', 't']
  else if c.toNat < 0x20 then
    ['\\', 'u', '0', '0', Nat.digitChar (c.toNat / 16), Nat.digitChar (c.toNat % 16)]
  else [c]

/-- A JSON string. -/
def string (s : List Char) : List Char := '"' :: s.flatMap stringChar ++ ['"']

/-- Members or elements with commas between them. -/
def commaSeparated : List (List Char) → List Char
  | [] => []
  | [x] => x
  | x :: y :: rest => x ++ ',' :: commaSeparated (y :: rest)

/-- A JSON object with the given members. -/
def object (members : List (List Char × List Char)) : List Char :=
  '\x7b' :: commaSeparated (members.map fun m => string m.1 ++ ':' :: m.2) ++ ['\x7d']

/-- A JSON array of strings. -/
def stringArray (elements : List String) : List Char :=
  '[' :: commaSeparated (elements.map fun e => string e.toList) ++ [']']

/-- A sighting as a JSON object. -/
def sighting (s : Sighting) : List Char :=
  object [("content".toList, string s.content.toList),
    ("last_seen".toList, string s.lastSeen.timestamp)]

/-- A registry as a JSON object from ids to sightings. -/
def registry (r : Registry) : List Char :=
  object (r.entries.map fun e => (e.1.toList, sighting e.2))

end Presence.Json
