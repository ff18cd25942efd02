/-
Presence/Text/ControlSequence.lean

Control sequences, and texts without them.

A control sequence is what a terminal obeys instead of showing it.  It begins
with an escape character, and what comes next tells its kind:

* `[` opens a control function, which ends with a character from `@` to `~`;
* `]` opens a command to the system, which ends with a bell;
* `P` opens a device string, which has a head of numbers and marks before its
  body; `X`, `^` and `_` open a body at once.  A body ends with a string
  terminator, that is, with a character whose UTF-8 form has the byte 9C;
* characters from the space to `/` open a selection; it ends with the first
  character from `0` to `~`;
* any other character from `0` to `~` is the whole rest of the sequence.

Wherever a sequence stands, an escape character begins a new one, and a cancel or
substitute character ends it.  A layout character inside a selection or a control
function, or right behind the escape character, shows and interrupts the
sequence: the text behind it shows, up to the next control character.  There are
two kinds of reader.  One gives an interrupted sequence up; the other resumes it
at that control character.

`Phase` says where in a sequence a reader is, and `withoutSequences` gives what
is left of a text when its sequences and its other control characters are taken
out.
-/

namespace Presence.Text

/-- Where a reader is. -/
inductive Phase where
  /-- In no sequence. -/
  | text
  /-- Behind an escape character. -/
  | escape
  /-- In a selection. -/
  | selection
  /-- In a control function. -/
  | control
  /-- At the head of a device string. -/
  | deviceHead
  /-- Among the numbers in the head of a device string. -/
  | deviceNumbers
  /-- Among the marks that end the head of a device string. -/
  | deviceMarks
  /-- In a body. -/
  | body
  /-- In a command to the system. -/
  | command
  deriving DecidableEq, Repr

/-- A control character that lays out text. -/
def isLayout (c : Char) : Bool := c == '\t' || c == '\n' || c == '\x0c' || c == '\r'

/-- A character from `first` to `last`. -/
def isFromTo (first last c : Char) : Bool := decide (first ≤ c) && decide (c ≤ last)

/-- The byte 9C, the string terminator, stands in the UTF-8 form of the character. -/
def hasTerminator (c : Char) : Bool := (String.utf8EncodeChar c).contains 0x9C

namespace Phase

/-- A character shows when it is met. -/
def shows (p : Phase) (c : Char) : Bool :=
  match p with
  | text => isLayout c || decide (' ' ≤ c) && c != '\x7f'
  | escape | selection | control => isLayout c
  | _ => false

/-- Where a reader is behind an escape character and a further one. -/
def opened (c : Char) : Phase :=
  if c = '[' then control
  else if c = ']' then command
  else if c = 'P' then deviceHead
  else if c = 'X' ∨ c = '^' ∨ c = '_' then body
  else if isFromTo ' ' '/' c then selection
  else if isFromTo '0' '~' c then text
  else escape

/-- Where a reader is behind a character that does not show. -/
def next (p : Phase) (c : Char) : Phase :=
  if c = '\x1b' then escape
  else if c = '\x18' ∨ c = '\x1a' then text
  else
    match p with
    | text => text
    | escape => opened c
    | selection => if isFromTo '0' '~' c then text else selection
    | control => if isFromTo '@' '~' c then text else control
    | deviceHead =>
      if isFromTo ' ' '/' c then deviceMarks
      else if isFromTo '0' '?' c then deviceNumbers
      else if isFromTo '@' '~' c then body
      else deviceHead
    | deviceNumbers =>
      if isFromTo ' ' '/' c then deviceMarks
      else if isFromTo '<' '~' c then body
      else deviceNumbers
    | deviceMarks => if isFromTo '0' '~' c then body else deviceMarks
    | body => if hasTerminator c then text else body
    | command => if c = '\x07' then text else command

end Phase

/-- What shows of a text when reading begins in a phase.  `showing` holds behind a character that
shows: what can be shown outside sequences then shows as well.  With `resumes` a sequence that has
been interrupted goes on behind such a run of text, unless there is a character beyond ASCII in
it. -/
def shown (resumes : Bool) (p : Phase) (showing : Bool) : List Char → List Char
  | [] => []
  | c :: rest =>
    if p.shows c || showing && Phase.text.shows c then
      c :: shown resumes (if resumes && decide (c < '\x80') then p else .text) true rest
    else shown resumes (p.next c) false rest

/-- A text without its control sequences and its other control characters, layout characters
excepted.  A sequence that has not ended goes to the end of the text. -/
def withoutSequences (resumes : Bool) (s : String) : String :=
  String.ofList (shown resumes .text false s.toList)

end Presence.Text
