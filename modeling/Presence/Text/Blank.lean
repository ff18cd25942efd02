/-
Presence/Text/Blank.lean

Blank characters, and the ways in which a line is cut at them.

A character is blank when it has the Unicode property White_Space: the ASCII
blanks, NEL, the no-break space, the typographic spaces, the two separators and
the ideographic space.  A zero-width space, a byte order mark and the ASCII
separators U+001C to U+001F are not blank.

Text is cut as a list of characters.  `words` gives the maximal blank-free
pieces; `firstWord` and `afterFirstWord` take the piece in front and what
follows the *single* blank behind it, so that the rest may itself begin with
blanks.
-/

namespace Presence.Text

/-- The ranges of the Unicode property White_Space, ends included. -/
def blankRanges : List (Nat × Nat) :=
  [(0x09, 0x0D), (0x20, 0x20), (0x85, 0x85), (0xA0, 0xA0), (0x1680, 0x1680),
    (0x2000, 0x200A), (0x2028, 0x2029), (0x202F, 0x202F), (0x205F, 0x205F),
    (0x3000, 0x3000)]

/-- Does the code point of `c` lie in one of the ranges? -/
def inRanges (ranges : List (Nat × Nat)) (c : Char) : Bool :=
  ranges.any fun r => decide (r.1 ≤ c.toNat) && decide (c.toNat ≤ r.2)

/-- A character with the Unicode property White_Space. -/
def isBlank (c : Char) : Bool := inRanges blankRanges c

/-- The text without the blanks in front of it. -/
def skipBlanks (s : List Char) : List Char := s.dropWhile isBlank

/-- The characters up to the first blank. -/
def firstWord (s : List Char) : List Char := s.takeWhile fun c => !isBlank c

/-- What follows the first blank; nothing if there is none. -/
def afterFirstWord (s : List Char) : List Char := (s.dropWhile fun c => !isBlank c).drop 1

/-- The maximal blank-free pieces, in order. -/
def words : List Char → List (List Char)
  | [] => []
  | c :: rest =>
    if isBlank c then words rest
    else
      match rest with
      | [] => [[c]]
      | d :: _ =>
        if isBlank d then [c] :: words rest
        else
          match words rest with
          | [] => [[c]]
          | w :: ws => (c :: w) :: ws

/-- Line feed or carriage return, the characters that may end a line. -/
def isLineEnd (c : Char) : Bool := c == '\n' || c == '\r'

/-- The line without the line feeds and carriage returns at its end. -/
def dropLineEnds (s : List Char) : List Char := (s.reverse.dropWhile isLineEnd).reverse

end Presence.Text
