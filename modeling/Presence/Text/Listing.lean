/-
Presence/Text/Listing.lean

Names listed on one line, with a comma and a space between them.

`listing` sets the names down as they are, in the order in which they are given.
`parts` takes a line apart again, at every separator.  A name that holds a
separator itself comes back in pieces.
-/

namespace Presence.Text

/-- Names on one line. -/
def listing (names : List String) : String := ", ".intercalate names

/-- The pieces of a text between separators of a comma and a space. -/
def parts : List Char → List (List Char)
  | [] => [[]]
  | ',' :: ' ' :: rest => [] :: parts rest
  | c :: rest =>
    match parts rest with
    | [] => [[c]]
    | p :: ps => (c :: p) :: ps

end Presence.Text
