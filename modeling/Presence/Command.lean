/-
Presence/Command.lean

The commands of the console and their line syntax.

A line holds a verb and its arguments, parted by blanks; a line of blanks is no
command.  `upsert` takes the id and then, behind a single blank, the content as
it stands, with its own blanks; only line ends behind it are dropped.  The other
verbs take blank-free arguments: `touch`, `remove` and `get` an id, `prune` an
age in whole seconds, `list` nothing.

A superfluous argument is reported before a bad age.
-/
import Presence.Time.Instant
import Presence.Text.Blank
import Presence.Text.Number

namespace Presence

open Text

/-- What a console line asks for. -/
inductive Command where
  /-- Track a peer with a content, seen now. -/
  | upsert (id content : String)
  /-- A tracked peer is seen now. -/
  | touch (id : String)
  /-- Forget a peer. -/
  | remove (id : String)
  /-- Show a peer. -/
  | get (id : String)
  /-- Show all peers. -/
  | list
  /-- Forget the peers older than an age. -/
  | prune (maxAge : Age)
  deriving DecidableEq, Repr

/-- The first word of a command. -/
inductive Verb where
  | upsert
  | touch
  | remove
  | get
  | list
  | prune
  deriving DecidableEq, Repr

namespace Verb

/-- The verb as it is written. -/
def name : Verb → String
  | upsert => "upsert"
  | touch => "touch"
  | remove => "remove"
  | get => "get"
  | list => "list"
  | prune => "prune"

/-- All verbs. -/
def all : List Verb := [upsert, touch, remove, get, list, prune]

/-- The verb that is written so. -/
def ofName? (s : List Char) : Option Verb := all.find? fun v => v.name.toList = s

/-- What the verb's argument is. -/
def argument : Verb → String
  | prune => "a max age in seconds"
  | _ => "a peer id"

end Verb

/-- Why a line is no command. -/
inductive CommandError where
  /-- The first word is no verb. -/
  | unknownCommand (word : String)
  /-- The verb needs an argument. -/
  | missingArgument (verb : Verb)
  /-- The age is no number of seconds. -/
  | invalidAge (word : String)
  /-- There is a word too many, the first such one. -/
  | unexpectedArgument (word : String)
  deriving DecidableEq, Repr

/-- The wording of an error. -/
def CommandError.message : CommandError → String
  | unknownCommand word => "unknown command '" ++ word ++ "'"
  | missingArgument verb => "'" ++ verb.name ++ "' requires " ++ verb.argument
  | invalidAge word => "invalid age '" ++ word ++ "', expected whole seconds"
  | unexpectedArgument word => "unexpected argument '" ++ word ++ "'"

namespace Command

/-- There are no words left over. -/
def noMore (ws : List (List Char)) : Except CommandError Unit :=
  match ws with
  | [] => .ok ()
  | w :: _ => .error (.unexpectedArgument (String.ofList w))

/-- The one word that is the argument of a verb. -/
def soleArgument (verb : Verb) (args : List Char) : Except CommandError (List Char) :=
  match words args with
  | [] => .error (.missingArgument verb)
  | w :: ws => do
    noMore ws
    return w

/-- An age in whole seconds. -/
def readAge (w : List Char) : Except CommandError Age :=
  match readWord64 w with
  | .ok n => .ok (Age.ofSeconds n)
  | .error _ => .error (.invalidAge (String.ofList w))

/-- The command of a verb with what follows it on the line, blanks in front removed. -/
def ofVerb (verb : Verb) (args : List Char) : Except CommandError Command :=
  match verb with
  | .upsert =>
    match firstWord args with
    | [] => .error (.missingArgument .upsert)
    | id => .ok (upsert (String.ofList id) (String.ofList (afterFirstWord args)))
  | .touch => do return touch (String.ofList (← soleArgument .touch args))
  | .remove => do return remove (String.ofList (← soleArgument .remove args))
  | .get => do return get (String.ofList (← soleArgument .get args))
  | .list => do
    noMore (words args)
    return list
  | .prune => do return prune (← readAge (← soleArgument .prune args))

/-- Reads a line; a line of blanks holds no command. -/
def parse (line : String) : Except CommandError (Option Command) :=
  match skipBlanks (dropLineEnds line.toList) with
  | [] => .ok none
  | s =>
    match Verb.ofName? (firstWord s) with
    | none => .error (.unknownCommand (String.ofList (firstWord s)))
    | some verb => do return some (← ofVerb verb (skipBlanks (afterFirstWord s)))

end Command

end Presence
