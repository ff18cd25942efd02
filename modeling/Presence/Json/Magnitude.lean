/-
Presence/Json/Magnitude.lean

How large a number may be.

A number is held in binary, with 53 digits of precision, and one beyond the range
of such numbers is refused.  The range is tested on what is held and not on the
number as it is written.  The leading digits that make a number below `2^64` are
taken as they are and rounded to 53 digits (`round53`), and so is the power of
ten that remains; the number is too large if the product of the two is.  Hence a
few numbers just below the end of the range are refused as well.
-/
import Presence.Text.Number

namespace Presence.Json

/-- A number taken apart: its digits before and behind the point, and its exponent. -/
structure Numeral where
  /-- Digits before the point. -/
  whole : List Char
  /-- Digits behind the point. -/
  fraction : List Char
  /-- The exponent is negative. -/
  shrinks : Bool
  /-- Digits of the exponent. -/
  exponent : List Char

/-- The nearest number that has at most 53 binary digits before its last zeros; a tie goes to the
one whose last digit is even. -/
def round53 (n : Nat) : Nat :=
  let unit := Nat.pow 2 (n.log2 - 52)
  let digits := n / unit
  let twice := 2 * (n % unit)
  if unit < twice ∨ unit = twice ∧ digits % 2 = 1 then (digits + 1) * unit else digits * unit

/-- Appends digits to a number for as long as it stays below `2^64`; gives the number and how many
digits have found a place. -/
def absorb (n : Nat) : List Char → Nat × Nat
  | [] => (n, 0)
  | c :: rest =>
    let m := 10 * n + Text.digitValue c
    if m < UInt64.size then
      let (value, count) := absorb m rest
      (value, count + 1)
    else (n, 0)

/-- The largest exponent of ten that can be held. -/
def largestExponent : Nat := 308

/-- The least number that is rounded beyond the range, half a unit above the largest one held. -/
def overflowBound : Nat := Nat.pow 2 1024 - Nat.pow 2 970

namespace Numeral

/-- The leading digits as a whole number below `2^64`, and the exponent of ten that they leave. -/
def parts (n : Numeral) : Nat × Int :=
  let (whole, placed) := absorb 0 n.whole
  let (significand, behind) := absorb whole n.fraction
  let exponent : Int := Text.digitsValue n.exponent
  (significand,
    (n.whole.length - placed : Nat) - (behind : Int) + if n.shrinks then -exponent else exponent)

/-- The number is too large to be held. -/
def overflows (n : Numeral) : Bool :=
  let (significand, exponent) := n.parts
  if significand = 0 ∨ exponent < 0 then false
  else if largestExponent < exponent then true
  else decide (overflowBound ≤ round53 significand * round53 (Nat.pow 10 exponent.toNat))

end Numeral

end Presence.Json
