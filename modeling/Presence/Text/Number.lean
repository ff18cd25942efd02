/-
Presence/Text/Number.lean

Whole numbers in decimal.

`readWord64` reads a number below `2^64`: an optional plus sign and one or more
ASCII digits, with any number of leading zeros.  Digits are taken from the left
and the first fault is the one reported, so an overflow is found before a bad
character behind it.

`decimal` writes a number with no leading zero and `padded` its last digits at a
fixed width.
-/

namespace Presence.Text

/-- Why a text is not a number below `2^64`. -/
inductive NumberError where
  /-- There is nothing to read. -/
  | empty
  /-- A character is no ASCII digit, or a sign stands alone. -/
  | invalidDigit
  /-- The value is `2^64` or more. -/
  | tooLarge
  deriving DecidableEq, Repr

/-- The wording of a fault. -/
def NumberError.message : NumberError → String
  | .empty => "cannot parse integer from empty string"
  | .invalidDigit => "invalid digit found in string"
  | .tooLarge => "number too large to fit in target type"

/-- The value of an ASCII digit. -/
def digitValue (c : Char) : Nat := c.toNat - '0'.toNat

/-- The value of a run of digits. -/
def digitsValue (ds : List Char) : Nat := ds.foldl (fun n c => 10 * n + digitValue c) 0

/-- Reads digits behind the value `n` of those before them, staying below `2^64`. -/
def readDigits (n : Nat) : List Char → Except NumberError Nat
  | [] => .ok n
  | c :: rest =>
    if c.isDigit then
      let m := 10 * n + digitValue c
      if m < UInt64.size then readDigits m rest else .error .tooLarge
    else .error .invalidDigit

/-- Reads a whole number below `2^64`, with an optional plus sign. -/
def readWord64 : List Char → Except NumberError Nat
  | [] => .error .empty
  | '+' :: [] => .error .invalidDigit
  | '+' :: c :: rest => readDigits 0 (c :: rest)
  | c :: rest => readDigits 0 (c :: rest)

/-- A number in decimal, without leading zeros. -/
def decimal (n : Nat) : List Char := Nat.toDigits 10 n

/-- The last `width` decimal digits of a number, zeros included. -/
def padded : (width : Nat) → Nat → List Char
  | 0, _ => []
  | width + 1, n => padded width (n / 10) ++ [Nat.digitChar (n % 10)]

end Presence.Text
