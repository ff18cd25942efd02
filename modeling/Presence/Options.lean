/-
Presence/Options.lean

The command line.

Arguments are taken from left to right.  A setting takes its value behind `=` or
from the next argument, which must not begin with a hyphen unless it is a lone
one; a switch takes none.  A setting whose value stands apart is completed when
the next option comes or the arguments end.  Only then is it found missing,
given twice or no number, so an argument that is unknown is reported before the
bad value in front of it.  Help and version are answered as soon as they are met.
Behind `--` there is nothing that could be given.

`parse` gives the options or the reason for refusing the arguments.  `refusal?`
tells why options that can be read make no sense.
-/
import Presence.Time.Instant
import Presence.Text.ControlSequence
import Presence.Text.Number

namespace Presence

open Text

/-- Options that take a number of seconds. -/
inductive Setting where
  | maxAge
  | sweepInterval
  deriving DecidableEq, Repr

/-- Options that take nothing. -/
inductive Switch where
  | noSweeper
  | noConsole
  | help
  | version
  deriving DecidableEq, Repr

/-- The name of a setting, without its hyphens. -/
def Setting.name : Setting → String
  | maxAge => "max-age"
  | sweepInterval => "sweep-interval"

/-- A setting as messages show it. -/
def Setting.shown : Setting → String
  | maxAge => "--max-age <MAX_AGE>"
  | sweepInterval => "--sweep-interval <SWEEP_INTERVAL>"

/-- The name of a switch, without its hyphens. -/
def Switch.name : Switch → String
  | noSweeper => "no-sweeper"
  | noConsole => "no-console"
  | help => "help"
  | version => "version"

/-- A switch as messages show it. -/
def Switch.shown (s : Switch) : String := "--" ++ s.name

/-- What the user has asked for. -/
structure Options where
  /-- Peers older than so many seconds are swept away. -/
  maxAge : Nat := 300
  /-- Seconds between sweeps. -/
  sweepInterval : Nat := 30
  /-- Do not sweep. -/
  noSweeper : Bool := false
  /-- Do not read commands. -/
  noConsole : Bool := false
  deriving DecidableEq, Repr

/-- Why arguments give no options. -/
inductive UsageError where
  /-- The user wants to see the help. -/
  | helpRequested
  /-- The user wants to see the version. -/
  | versionRequested
  /-- There is no such option, or an argument is none. -/
  | unexpectedArgument (arg : String)
  /-- A setting has no value. -/
  | missingValue (s : Setting)
  /-- The value of a setting is no number. -/
  | invalidValue (s : Setting) (value : String) (why : NumberError)
  /-- An option, as messages show it, is given twice. -/
  | repeated (shown : String)
  /-- A switch has a value. -/
  | unexpectedValue (s : Switch) (value : String)
  deriving DecidableEq, Repr

namespace Options

/-- The name and version of the program. -/
def versionText : String := "cichlid-peers 0.0.1\n"

/-- The help. -/
def helpText : String :=
  "Usage: cichlid-peers [OPTIONS]\n" ++
  "\n" ++
  "Options:\n" ++
  "      --max-age <MAX_AGE>\n" ++
  "          Maximum peer age, in seconds [default: 300]\n" ++
  "      --sweep-interval <SWEEP_INTERVAL>\n" ++
  "          Sweep interval, in seconds [default: 30]\n" ++
  "      --no-sweeper\n" ++
  "          Disable the periodic sweeper; peers are only pruned on request\n" ++
  "      --no-console\n" ++
  "          Do not read commands from stdin\n" ++
  "  -h, --help\n" ++
  "          Print help\n" ++
  "  -V, --version\n" ++
  "          Print version\n"

end Options

/-- The answer to arguments that give no options, given how arguments are quoted. -/
def UsageError.wording (quoted : String → String) : UsageError → String
  | helpRequested => Options.helpText
  | versionRequested => Options.versionText
  | unexpectedArgument arg => "error: unexpected argument '" ++ quoted arg ++ "' found"
  | missingValue s => "error: a value is required for '" ++ s.shown ++ "' but none was supplied"
  | invalidValue s value why =>
    "error: invalid value '" ++ quoted value ++ "' for '" ++ s.shown ++ "': " ++ why.message
  | repeated shown => "error: the argument '" ++ shown ++ "' cannot be used multiple times"
  | unexpectedValue s value =>
    "error: unexpected value '" ++ quoted value ++ "' for '" ++ s.shown ++
      "' found; no more were expected"

/-- The answer as a text by itself.  Arguments are quoted without their control sequences, and an
interrupted sequence is given up. -/
def UsageError.message (e : UsageError) : String := e.wording (withoutSequences false)

/-- The answer as the program writes it.  Arguments are quoted without their control sequences, and
an interrupted sequence is resumed. -/
def UsageError.written (e : UsageError) : String := e.wording (withoutSequences true)

/-- The arguments ask for something to be shown, which is no mistake. -/
def UsageError.isRequest : UsageError → Bool
  | helpRequested | versionRequested => true
  | _ => false

/-! ### Kinds of arguments -/

/-- What an argument looks like. -/
inductive Argument where
  /-- The two hyphens behind which there are no options. -/
  | separator
  /-- Two hyphens and a name, perhaps with a value behind `=`. -/
  | long (name : List Char) (value : Option (List Char))
  /-- A hyphen and a letter, perhaps with more behind it. -/
  | short (letter : Char)
  /-- Anything else. -/
  | plain
  deriving DecidableEq, Repr

/-- What follows the first equals sign, if there is one. -/
def afterEquals (s : List Char) : Option (List Char) :=
  match s.dropWhile (· ≠ '=') with
  | [] => none
  | _ :: value => some value

/-- Tells what an argument looks like. -/
def Argument.ofText : List Char → Argument
  | ['-', '-'] => separator
  | '-' :: '-' :: rest => long (rest.takeWhile (· ≠ '=')) (afterEquals rest)
  | '-' :: c :: _ => short c
  | _ => plain

/-- The setting of a name. -/
def Setting.ofName? (name : List Char) : Option Setting :=
  [maxAge, sweepInterval].find? fun s => s.name.toList = name

/-- The switch of a name. -/
def Switch.ofName? (name : List Char) : Option Switch :=
  [noSweeper, noConsole, help, version].find? fun s => s.name.toList = name

/-! ### Taking arguments -/

/-- A setting to be completed, and the value that stood apart from it, once it has come. -/
structure Pending where
  setting : Setting
  value : Option (List Char)
  deriving DecidableEq, Repr

/-- The options given so far. -/
structure Given where
  /-- The maximal age. -/
  maxAge : Option Nat := none
  /-- The interval between sweeps. -/
  sweepInterval : Option Nat := none
  /-- The switches. -/
  switches : List Switch := []
  /-- The setting that is not yet completed. -/
  pending : Option Pending := none
  deriving DecidableEq, Repr

namespace Given

/-- The value of a setting, if it has been given. -/
def value? (g : Given) : Setting → Option Nat
  | .maxAge => g.maxAge
  | .sweepInterval => g.sweepInterval

/-- Gives a setting its value. -/
def assign (g : Given) (s : Setting) (value : List Char) : Except UsageError Given :=
  if (g.value? s).isSome then .error (.repeated s.shown)
  else
    match readWord64 value with
    | .error why => .error (.invalidValue s (String.ofList value) why)
    | .ok n =>
      match s with
      | .maxAge => .ok { g with maxAge := some n }
      | .sweepInterval => .ok { g with sweepInterval := some n }

/-- Completes the setting that waits to be. -/
def complete (g : Given) : Except UsageError Given :=
  match g.pending with
  | none => .ok g
  | some ⟨s, none⟩ => .error (.missingValue s)
  | some ⟨s, some value⟩ => { g with pending := none }.assign s value

/-- Takes a switch. -/
def switch (g : Given) (s : Switch) : Except UsageError Given := do
  let g ← g.complete
  match s with
  | .help => throw .helpRequested
  | .version => throw .versionRequested
  | _ =>
    if s ∈ g.switches then throw (.repeated s.shown)
    return { g with switches := s :: g.switches }

/-- Takes an option with two hyphens. -/
def long (g : Given) (name : List Char) (value : Option (List Char)) : Except UsageError Given :=
  match Setting.ofName? name, Switch.ofName? name, value with
  | some s, _, some v => do (← g.complete).assign s v
  | some s, _, none => do return { (← g.complete) with pending := some ⟨s, none⟩ }
  | none, some s, some v => .error (.unexpectedValue s (String.ofList v))
  | none, some s, none => g.switch s
  | none, none, _ => .error (.unexpectedArgument ("--" ++ String.ofList name))

/-- Takes an option with one hyphen, of which the first letter settles the matter. -/
def short (g : Given) (letter : Char) : Except UsageError Given :=
  if letter = 'h' then g.switch .help
  else if letter = 'V' then g.switch .version
  else .error (.unexpectedArgument (String.ofList ['-', letter]))

/-- Takes an argument that is no option. -/
def plain (g : Given) (arg : String) : Except UsageError Given :=
  match g.pending with
  | some ⟨s, none⟩ => .ok { g with pending := some ⟨s, some arg.toList⟩ }
  | _ => .error (.unexpectedArgument arg)

/-- Takes arguments up to their end, and completes what is to be completed. -/
def takeAll (g : Given) : List String → Except UsageError Given
  | [] => g.complete
  | arg :: rest =>
    match Argument.ofText arg.toList with
    | .separator =>
      match rest with
      | [] => g.complete
      | extra :: _ => .error (.unexpectedArgument extra)
    | .long name value => do (← g.long name value).takeAll rest
    | .short letter => do (← g.short letter).takeAll rest
    | .plain => do (← g.plain arg).takeAll rest

/-- The options, with the usual values for those not given. -/
def options (g : Given) : Options :=
  { maxAge := g.maxAge.getD 300
    sweepInterval := g.sweepInterval.getD 30
    noSweeper := decide (Switch.noSweeper ∈ g.switches)
    noConsole := decide (Switch.noConsole ∈ g.switches) }

end Given

namespace Options

/-- Reads the command line. -/
def parse (args : List String) : Except UsageError Options := do
  return (← ({} : Given).takeAll args).options

/-- The longest age that peers reach before they are swept away. -/
def oldest (o : Options) : Age := Age.ofSeconds o.maxAge

/-- The time between sweeps. -/
def interval (o : Options) : Age := Age.ofSeconds o.sweepInterval

/-- Why the options make no sense, if they do not. -/
def refusal? (o : Options) : Option String :=
  if !o.noSweeper && o.sweepInterval == 0 then
    some "--sweep-interval must be greater than zero"
  else none

end Options

end Presence
