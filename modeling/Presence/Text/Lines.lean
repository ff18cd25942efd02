/-
Presence/Text/Lines.lean

Lines of text from bytes.

A line ends at a line feed; one carriage return right before the line feed
belongs to the line's end as well.  Bytes behind the last line feed are a line
too, taken as they are.  Each line has to be valid UTF-8 by itself; reading
stops after the first one that is not.
-/

namespace Presence

/-- Why reading a line has failed. -/
inductive InputError where
  /-- The line is not valid UTF-8. -/
  | invalidText
  /-- The source has failed, for the reason given. -/
  | failed (reason : String)
  deriving DecidableEq, Repr

/-- The wording of an input error. -/
def InputError.message : InputError → String
  | invalidText => "stream did not contain valid UTF-8"
  | failed reason => reason

namespace Text

/-- The byte of a line feed. -/
def lineFeed : UInt8 := 10

/-- The byte of a carriage return. -/
def carriageReturn : UInt8 := 13

/-- The pieces between line feeds; at least one. -/
def pieces : List UInt8 → List (List UInt8)
  | [] => [[]]
  | b :: rest =>
    if b = lineFeed then [] :: pieces rest
    else
      match pieces rest with
      | [] => [[b]]
      | p :: ps => (b :: p) :: ps

/-- The bytes without one carriage return at their end. -/
def dropReturn (p : List UInt8) : List UInt8 :=
  if p.getLast? = some carriageReturn then p.dropLast else p

/-- The bytes of each line, without its end. -/
def byteLines : List (List UInt8) → List (List UInt8)
  | [] => []
  | [last] => if last = [] then [] else [last]
  | p :: q :: rest => dropReturn p :: byteLines (q :: rest)

/-- A line from its bytes. -/
def decodeLine (p : List UInt8) : Except InputError String :=
  match String.fromUTF8? p.toByteArray with
  | some s => .ok s
  | none => .error .invalidText

/-- The results up to the first error, that error included. -/
def upToError {ε α : Type} : List (Except ε α) → List (Except ε α)
  | [] => []
  | .ok a :: rest => .ok a :: upToError rest
  | .error e :: _ => [.error e]

/-- The lines of a byte string; the last is an error if reading had to stop. -/
def lines (bytes : List UInt8) : List (Except InputError String) :=
  upToError ((byteLines (pieces bytes)).map decodeLine)

end Text

end Presence
