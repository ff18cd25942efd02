/-
Presence/Text/Hidden.lean

Characters that do not show by themselves.

A hidden character cannot be printed, joins the character before it, or is one
of the Hangul fillers, letters that are blank.  A literal spells such characters
as escapes.
-/
import Presence.Text.Combining
import Presence.Text.Unprinted

namespace Presence.Text

/-- The ranges of the Hangul fillers, ends included. -/
def fillerRanges : List (Nat × Nat) := [(0x115F, 0x1160), (0x3164, 0x3164), (0xFFA0, 0xFFA0)]

/-- A letter that is blank. -/
def isFiller (c : Char) : Bool := inRanges fillerRanges c

/-- A character that does not show by itself. -/
def isHidden (c : Char) : Bool := isUnprinted c || isCombining c || isFiller c

end Presence.Text
