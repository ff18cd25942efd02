/-
Presence/Text/Literal.lean

Texts as quoted literals, in the form in which reports quote names and messages.

A literal stands between double quotes.  The quote, the backslash, NUL, tab,
line feed and carriage return have short escapes; any other hidden character is
spelled `\u{...}` with its code point in hexadecimal.  All else stands for
itself, the single quote included.
-/
import Presence.Text.Hidden

namespace Presence.Text

/-- A character inside a literal. -/
def literalChar (c : Char) : List Char :=
  if c = '"' then ['\\', '"']
  else if c = '\\' then ['\\', '\\']
  else if c = '\x00' then ['\\', '0']
  else if c = '\t' then ['\\', 't']
  else if c = '\n' then ['\\', 'n']
  else if c = '\r' then ['\\', 'r']
  else if isHidden c then ['\\', 'u', '\x7b'] ++ Nat.toDigits 16 c.toNat ++ ['\x7d']
  else [c]

/-- A text as a literal. -/
def literal (s : String) : String :=
  String.ofList ('"' :: s.toList.flatMap literalChar ++ ['"'])

end Presence.Text
