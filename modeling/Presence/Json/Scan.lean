/-
Presence/Json/Scan.lean

Taking JSON apart, from left to right.

A `Scan` takes characters from the front of a text or stops with a `Flaw`, the
first one met: the text ends too early (`truncated`), it is no JSON
(`malformed`), or it is JSON of the wrong kind (`unfit`).

Strings are read in two ways.  Where the text of a string matters, escapes are
decoded and surrogates have to come in pairs; where it does not, escapes only
have to be well formed.  Numbers never matter for themselves; what counts is
where one ends and which flaw it has.
-/
import Presence.Json.Magnitude

namespace Presence.Json

/-- What is wrong with a text that should have been JSON of some kind. -/
inductive Flaw where
  /-- The text is no JSON. -/
  | malformed
  /-- The text ends too early. -/
  | truncated
  /-- The text is JSON, but not of the kind asked for. -/
  | unfit
  deriving DecidableEq, Repr

/-- A reader takes characters from the front of a text, or stops with a flaw. -/
abbrev Scan (α : Type) := StateT (List Char) (Except Flaw) α

/-- The blanks that may stand between tokens. -/
def isSpace (c : Char) : Bool := c == ' ' || c == '\n' || c == '\t' || c == '\r'

/-- The next character that is no blank, which is not taken; the blanks before it are. -/
def peek : Scan (Option Char) := do
  let s := (← get).dropWhile isSpace
  set s
  return s.head?

/-- Takes one character. -/
def skip : Scan Unit := modify (·.drop 1)

/-! ### Strings -/

/-- The value of a hexadecimal digit. -/
def hexValue? (c : Char) : Option Nat :=
  if c.isDigit then some (c.toNat - '0'.toNat)
  else if 'a' ≤ c ∧ c ≤ 'f' then some (c.toNat - 'a'.toNat + 10)
  else if 'A' ≤ c ∧ c ≤ 'F' then some (c.toNat - 'A'.toNat + 10)
  else none

/-- How many bytes a text takes in UTF-8. -/
def byteLength (s : List Char) : Nat := (s.map Char.utf8Size).foldr (· + ·) 0

/-- The value of four hexadecimal digits at the front of a text.  If fewer than four bytes are
left, the text is truncated, whatever they are. -/
def hexQuad (s : List Char) : Except Flaw Nat :=
  if byteLength (s.take 4) < 4 then .error .truncated
  else
    match (s.take 4).mapM hexValue? with
    | some ds => .ok (ds.foldl (fun n d => 16 * n + d) 0)
    | none => .error .malformed

/-- The first half of a surrogate pair. -/
def isHighSurrogate (n : Nat) : Bool := 0xD800 ≤ n && n < 0xDC00

/-- The second half of a surrogate pair. -/
def isLowSurrogate (n : Nat) : Bool := 0xDC00 ≤ n && n < 0xE000

/-- The character of a surrogate pair. -/
def ofSurrogates (high low : Nat) : Char :=
  Char.ofNat ((high - 0xD800) * 0x400 + (low - 0xDC00) + 0x10000)

/-- The second half of a surrogate pair, given what follows the first half. -/
def lowHalf (s : List Char) : Except Flaw Nat :=
  match s with
  | [] => .error .truncated
  | '\\' :: [] => .error .truncated
  | '\\' :: 'u' :: rest => do
    let low ← hexQuad rest
    if isLowSurrogate low then return low else throw .malformed
  | _ => .error .malformed

/-- The character that an escape of one letter stands for. -/
def shortEscape? (c : Char) : Option Char :=
  if c = '"' ∨ c = '\\' ∨ c = '/' then some c
  else if c = 'b' then some '\x08'
  else if c = 'f' then some '\x0c'
  else if c = 'n' then some '\n'
  else if c = 'r' then some '\r'
  else if c = 't' then some '\t'
  else none

/-- An escape behind its backslash: the character it stands for and how many characters it
takes. -/
def escape (s : List Char) : Except Flaw (Char × Nat) :=
  match s with
  | [] => .error .truncated
  | 'u' :: rest => do
    let n ← hexQuad rest
    if isLowSurrogate n then throw .malformed
    else if isHighSurrogate n then return (ofSurrogates n (← lowHalf (rest.drop 4)), 11)
    else return (Char.ofNat n, 5)
  | c :: _ =>
    match shortEscape? c with
    | some d => .ok (d, 1)
    | none => .error .malformed

/-- An escape behind its backslash, if only its form matters: how many characters it takes. -/
def escapeForm (s : List Char) : Except Flaw Nat :=
  match s with
  | [] => .error .truncated
  | 'u' :: rest => do
    let _ ← hexQuad rest
    return 5
  | c :: _ => if (shortEscape? c).isSome then .ok 1 else .error .malformed

/-- The text of a string behind its opening quote, and what follows its closing quote. -/
def stringTail (s : List Char) : Except Flaw (List Char × List Char) :=
  match s with
  | [] => .error .truncated
  | '"' :: rest => .ok ([], rest)
  | '\\' :: rest => do
    let (c, n) ← escape rest
    let (text, after) ← stringTail (rest.drop n)
    return (c :: text, after)
  | c :: rest =>
    if c.toNat < 0x20 then .error .malformed
    else do
      let (text, after) ← stringTail rest
      return (c :: text, after)
termination_by s.length
decreasing_by
  all_goals
    simp only [List.length_cons, List.length_drop]
    omega

/-- What follows a string behind its opening quote, if the text of the string does not matter. -/
def stringForm (s : List Char) : Except Flaw (List Char) :=
  match s with
  | [] => .error .truncated
  | '"' :: rest => .ok rest
  | '\\' :: rest => do
    let n ← escapeForm rest
    stringForm (rest.drop n)
  | c :: rest => if c.toNat < 0x20 then .error .malformed else stringForm rest
termination_by s.length
decreasing_by
  all_goals
    simp only [List.length_cons, List.length_drop]
    omega

/-- The text of a string whose opening quote comes next. -/
def stringText : Scan (List Char) := do
  skip
  let (text, rest) ← stringTail (← get)
  set rest
  return text

/-- Passes over a string whose opening quote comes next. -/
def passString : Scan Unit := do
  skip
  set (← stringForm (← get))

/-! ### Words and numbers -/

/-- Passes over a word. -/
def passWord (word : List Char) : Scan Unit := do
  match word with
  | [] => return
  | c :: more =>
    match ← get with
    | [] => throw .truncated
    | d :: rest =>
      if d = c then
        set rest
        passWord more
      else throw .malformed

/-- Takes the digits in front, perhaps none. -/
def takeDigits : Scan (List Char) := do
  let s ← get
  set (s.dropWhile Char.isDigit)
  return s.takeWhile Char.isDigit

/-- Takes digits, of which there has to be one at least; `atEnd` is the flaw if the text ends
before it. -/
def someDigits (atEnd : Flaw) : Scan (List Char) := do
  match ← takeDigits with
  | [] => throw (if (← get).isEmpty then atEnd else .malformed)
  | ds => return ds

/-- Takes the whole part of a number, which has no leading zero. -/
def wholePart (atEnd : Flaw) : Scan (List Char) := do
  match ← someDigits atEnd with
  | '0' :: _ :: _ => throw .malformed
  | ds => return ds

/-- Takes a fraction, if there is one. -/
def fractionPart (atEnd : Flaw) : Scan (List Char) := do
  match ← get with
  | '.' :: rest => set rest; someDigits atEnd
  | _ => return []

/-- Takes the sign of an exponent, if there is one; tells whether it is a minus. -/
def exponentSign : Scan Bool := do
  match ← get with
  | '-' :: rest => set rest; return true
  | '+' :: rest => set rest; return false
  | _ => return false

/-- Takes an exponent, if there is one. -/
def exponentPart (atEnd : Flaw) : Scan (Bool × List Char) := do
  match ← get with
  | c :: rest =>
    if c = 'e' ∨ c = 'E' then
      set rest
      return (← exponentSign, ← someDigits atEnd)
    else return (false, [])
  | [] => return (false, [])

/-- Takes a number, the sign of which may come next; `atEnd` is the flaw if the text ends where a
digit has to be. -/
def numeral (atEnd : Flaw) : Scan Numeral := do
  match ← get with
  | '-' :: rest => set rest
  | _ => pure ()
  let whole ← wholePart atEnd
  let fraction ← fractionPart atEnd
  let (shrinks, exponent) ← exponentPart atEnd
  return { whole, fraction, shrinks, exponent }

/-! ### Values -/

/-- A value of the wrong kind comes next.  Words, numbers and strings are read to their end
before the value is found unfit. -/
def unfitValue {α : Type} : Scan α := do
  match ← get with
  | [] => throw .malformed
  | c :: _ =>
    if c = 'n' then passWord "null".toList
    else if c = 't' then passWord "true".toList
    else if c = 'f' then passWord "false".toList
    else if c = '-' ∨ c.isDigit then
      let n ← numeral .truncated
      if n.overflows then throw .malformed
    else if c = '"' then
      let _ ← stringText
    else if c ≠ '[' ∧ c ≠ '\x7b' then throw .malformed
    throw .unfit

/-- The next character has to be `c`; it is taken. -/
def punctuation (c : Char) : Scan Unit := do
  match ← peek with
  | none => throw .truncated
  | some d => if d = c then skip else throw .malformed

/-- The kinds of brackets that are open. -/
inductive Bracket where
  | square
  | curly
  deriving DecidableEq, Repr

/-- The key of a member and its colon, if the innermost bracket is curly. -/
def passKey (b : Bracket) : Scan Unit := do
  if b = .curly then
    match ← peek with
    | none => throw .truncated
    | some c => if c = '"' then passString else throw .malformed
    punctuation ':'

/-- Passes over what is left of a value of any kind.  `stack` holds the open brackets, innermost
first.  With `atValue` a value comes next, otherwise one has just ended.  Every round takes at
least one character, so `fuel` rounds suffice for a text no longer than that. -/
def passRest : (fuel : Nat) → (stack : List Bracket) → (atValue : Bool) → Scan Unit
  | 0, _, _ => throw .truncated
  | fuel + 1, stack, true => do
    match ← peek with
    | none => throw .truncated
    | some c =>
      if c = '[' then
        skip
        if (← peek) = some ']' then passRest fuel (.square :: stack) false
        else passRest fuel (.square :: stack) true
      else if c = '\x7b' then
        skip
        if (← peek) = some '\x7d' then passRest fuel (.curly :: stack) false
        else
          passKey .curly
          passRest fuel (.curly :: stack) true
      else
        if c = 'n' then passWord "null".toList
        else if c = 't' then passWord "true".toList
        else if c = 'f' then passWord "false".toList
        else if c = '-' ∨ c.isDigit then
          let _ ← numeral .malformed
        else if c = '"' then passString
        else throw .malformed
        passRest fuel stack false
  | fuel + 1, stack, false => do
    match stack with
    | [] => return
    | b :: outer =>
      match ← peek with
      | none => throw .truncated
      | some c =>
        if c = ',' then
          skip
          passKey b
          passRest fuel stack true
        else if (b = .square ∧ c = ']') ∨ (b = .curly ∧ c = '\x7d') then
          skip
          passRest fuel outer false
        else throw .malformed

/-- Passes over a value of any kind. -/
def passValue : Scan Unit := do
  let s ← get
  passRest (2 * s.length + 2) [] true

end Presence.Json
