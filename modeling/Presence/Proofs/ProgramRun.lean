/-
Presence/Proofs/ProgramRun.lean

The program without its sweeper.

With the sweeper switched off nothing happens beside the console, so the program
is the console's work on the standard input: what it writes is what the console
writes, its log ends with the size of the console's registry, and its status is 0.
The input is a byte string.  Its lines are texts up to the first one that is not
(`Text.lines_eq`), and the console has answered all of them by the time it comes
to the flaw; the flaw goes into the log and not into the output.

Which of this applies is told by the arguments themselves: a switch is on exactly
if it is among them (`Options.noSweeper_iff_of_parse`).

With or without a sweeper, the program reports a failed task exactly if the sweeper
has failed, or the console has come to a line for which the clock cannot be read
(`Program.taskPanicked_mem_log_worked_iff`).

Main result: `program_without_sweeper`.
-/
import Presence.Program
import Presence.Proofs.CommandLine
import Presence.Proofs.ConsoleCourse
import Presence.Proofs.LineReader
import Presence.Proofs.SweeperFrame

namespace Presence

/-! ### Lines of a byte string -/

namespace Text

/-- The lines of a byte string that are texts, up to the first one that is not. -/
def goodLines (bytes : List UInt8) : List String := (lines bytes).filterMap Except.toOption

theorem filterMap_toOption_map_ok {ε α : Type} (l : List α) :
    (l.map (.ok : α → Except ε α)).filterMap Except.toOption = l := by
  rw [List.filterMap_map]
  exact List.filterMap_some

/-- The lines that are read are texts, and behind them stands an error if the input is no text. -/
theorem lines_eq (bytes : List UInt8) :
    lines bytes = (goodLines bytes).map .ok ++
      if bytes.toByteArray.IsValidUTF8 then [] else [.error .invalidText] := by
  have htext (text : List Char) : ∃ texts : List String, lines (encode text) = texts.map .ok :=
    ⟨(textLines text).map String.ofList, by rw [lines_encode, List.map_map]; rfl⟩
  by_cases hbytes : Encodes bytes
  · rw [if_pos (encodes_iff.1 hbytes), List.append_nil]
    obtain ⟨text, rfl⟩ := hbytes
    obtain ⟨texts, htexts⟩ := htext text
    rw [goodLines, htexts, filterMap_toOption_map_ok]
  · rw [if_neg (mt encodes_iff.2 hbytes)]
    obtain ⟨front, flaw, rest, rfl, hflaw⟩ := exists_firstFlaw hbytes
    obtain ⟨text, rfl⟩ := encodes_iff.2 hflaw.front_valid
    obtain ⟨texts, htexts⟩ := htext text
    have hlines := hflaw.lines_eq
    rw [htexts] at hlines
    have hgood : goodLines (encode text ++ (flaw ++ rest)) = texts := by
      rw [goodLines, hlines, List.filterMap_append, filterMap_toOption_map_ok]
      exact List.append_nil texts
    rw [hgood, hlines]

end Text

/-! ### The console on lines -/

theorem Course.ofEvents_map_event (script : List Cue) (rest : List LineEvent) :
    ofEvents (script.map Cue.event ++ rest) = (ofEvents rest).told script := by
  induction script with
  | nil => rfl
  | cons cue more ih =>
    rw [List.map_cons, List.cons_append, ofEvents_event, ih]
    rfl

/-- The course of lines that have been read: all that are texts are taken, and what stands behind
them decides. -/
theorem Course.ofEvents_lines (input : List UInt8) :
    ofEvents ((Text.lines input).map .item) =
      ⟨(Text.goodLines input).map .line,
        if input.toByteArray.IsValidUTF8 then .inputEnded else .inputFailed .invalidText, []⟩ := by
  have hevents : (Text.lines input).map .item =
      ((Text.goodLines input).map Cue.line).map Cue.event ++
        (if input.toByteArray.IsValidUTF8 then [] else [.item (.error .invalidText)] :
          List LineEvent) := by
    rw [Text.lines_eq, List.map_append, List.map_map, List.map_map]
    split <;> rfl
  rw [hevents, ofEvents_map_event]
  split
  · exact congrArg (fun l => (⟨l, .inputEnded, []⟩ : Course)) (List.append_nil _)
  · exact congrArg (fun l => (⟨l, .inputFailed .invalidText, []⟩ : Course)) (List.append_nil _)

namespace Program

variable {args : List String} {o : Options} {input : List UInt8} {clock : Clock}

/-- The console as the program starts it. -/
def consoleOn (input : List UInt8) (clock : Clock) : Console :=
  { node := Node.fresh clock, feed := Console.feedOfLines false (Text.lines input) }

theorem follows_consoleOn
    (hread : (Session.start clock).Readable ((Text.goodLines input).map .line)) :
    (consoleOn input clock).Follows (Session.start clock)
      ⟨(Text.goodLines input).map .line,
        if input.toByteArray.IsValidUTF8 then .inputEnded else .inputFailed .invalidText, []⟩ := by
  rw [← Course.ofEvents_lines]
  refine Console.follows_ofEvents rfl rfl ⟨rfl, nofun⟩ ?_
  rw [Course.ofEvents_lines]
  exact hread.unbroken

/-! ### The program -/

/-- Without its sweeper the program does the console's work and ends. -/
theorem run_of_noSweeper (h : Options.parse args = .ok o) (hsweeper : o.noSweeper = true)
    (uptime : Nat) (interrupted : Bool) :
    run uptime args input clock interrupted = some (worked .completed o input clock) := by
  have hrefusal : o.refusal? = none := by
    rw [Options.refusal?, hsweeper]
    rfl
  have hended : (watch uptime o clock).sweeper = .ended .completed := by
    show (if o.noSweeper then _ else _) = _
    rw [hsweeper]
    rfl
  have htask : sweeperTask? uptime o clock interrupted = some .completed := by
    have hbegun : (watch uptime o clock).sweeper ≠ .idle := by simp [hended]
    rw [sweeperTask?, Watch.begun_of_ne_idle hbegun, hended]
  rw [run, h]
  dsimp only
  rw [hrefusal, htask]
  rfl

theorem run_of_refusal {why : String} (h : Options.parse args = .ok o)
    (hwhy : o.refusal? = some why) (uptime : Nat) (interrupted : Bool) :
    run uptime args input clock interrupted =
      some { status := 1, log := [.optionsRejected why] } := by
  rw [run, h]
  dsimp only
  rw [hwhy]

variable {sweeper : TaskEnd}

theorem worked_of_console (hconsole : o.noConsole = false) :
    worked sweeper o input clock =
      { status := 0, output := (consoleOn input clock).run.2.sink.written.toList,
        log := consoleReport (consoleOn input clock).run.1 ++
          farewell sweeper (consoleTask (consoleOn input clock).run.1)
            (consoleOn input clock).run.2.node.registry.size } := by
  rw [worked, console, hconsole]
  rfl

theorem worked_of_noConsole (hconsole : o.noConsole = true) :
    worked sweeper o input clock = { status := 0, log := farewell sweeper .completed 0 } := by
  rw [worked, console, hconsole]
  rfl

/-- The program tells of a failed task exactly if the sweeper has failed, or the console has come to
a line for which the clock cannot be read. -/
theorem taskPanicked_mem_log_worked_iff :
    .taskPanicked none ∈ (worked sweeper o input clock).log ↔
      sweeper = .panicked none ∨
        o.noConsole = false ∧ ∃ f, (consoleOn input clock).run.1 = .broken f := by
  have hreport (name : String) (e : TaskEnd) :
      .taskPanicked none ∈ e.report name ↔ e = .panicked none := by
    rcases e with - | (- | message) | - <;> simp [TaskEnd.report]
  by_cases hconsole : o.noConsole = false
  · have hlast : .taskPanicked none ∉ consoleReport (consoleOn input clock).run.1 := by
      simp [consoleReport]
    have htask : consoleTask (consoleOn input clock).run.1 = .panicked none ↔
        ∃ f, (consoleOn input clock).run.1 = .broken f := by
      rcases (consoleOn input clock).run.1 with - | - | e | - | f <;> simp [consoleTask]
    rw [worked_of_console hconsole]
    simp [farewell, hlast, hreport, htask, hconsole]
  · rw [worked_of_noConsole (by simpa using hconsole)]
    simp [farewell, hreport, hconsole]

end Program

/-- **Without its sweeper the program is the console on the standard input.**  Accepted arguments
among which the sweeper is switched off, and the console is not, make the program write what the
console writes: the replies to all lines, or to all lines in front of the first one that is no text.
It ends with status 0 in either case, and tells the size of the registry that the console has left.
If both are switched off it writes nothing and tracks nobody, and arguments that make no sense end
it with status 1 before anything is written. -/
theorem program_without_sweeper {args : List String} {o : Options}
    (h : Options.parse args = .ok o) (uptime : Nat) (input : List UInt8) (clock : Clock) :
    ("--no-sweeper" ∈ args → "--no-console" ∉ args →
      let s := Session.start clock
      let script := (Text.goodLines input).map Cue.line
      let console := (Console.run
        { node := Node.fresh clock, feed := Console.feedOfLines false (Text.lines input) }).2
      s.Readable script →
        Program.run uptime args input clock false = some
          { status := 0
            output := console.sink.written.toList
            log := (if input.toByteArray.IsValidUTF8 then []
              else [.consoleFailed InputError.invalidText.message]) ++
                [.exiting console.node.registry.size] } ∧
          console.sink.written.toList = s.transcript script ∧
          console.node.registry = (s.tell script).2.node.registry ∧
          Text.lines input = (Text.goodLines input).map .ok ++
            if input.toByteArray.IsValidUTF8 then [] else [.error .invalidText]) ∧
    ("--no-sweeper" ∈ args → "--no-console" ∈ args →
      Program.run uptime args input clock false = some { status := 0, log := [.exiting 0] }) ∧
    ∀ why, o.refusal? = some why → ∀ interrupted,
      Program.run uptime args input clock interrupted =
        some { status := 1, log := [.optionsRejected why] } := by
  refine ⟨?_, ?_, ?_⟩
  · intro hsweeper hconsole s script console hread
    have hfollows := Program.follows_consoleOn hread
    have hon : o.noConsole = false := by
      simpa using mt (Options.noConsole_iff_of_parse h).1 hconsole
    refine ⟨?_, ?_, congrArg Node.registry hfollows.node, Text.lines_eq input⟩
    · rw [Program.run_of_noSweeper h ((Options.noSweeper_iff_of_parse h).2 hsweeper),
        Program.worked_of_console hon, hfollows.ending]
      split <;> rfl
    · show (Program.consoleOn input clock).run.2.sink.written.toList = _
      rw [hfollows.sink, Sink.toList_written_advance]
      rfl
  · intro hsweeper hconsole
    rw [Program.run_of_noSweeper h ((Options.noSweeper_iff_of_parse h).2 hsweeper),
      Program.worked_of_noConsole ((Options.noConsole_iff_of_parse h).2 hconsole)]
    rfl
  · intro why hwhy interrupted
    exact Program.run_of_refusal h hwhy uptime interrupted

/-- A setting whose value stands apart comes in front of the switch, and the input holds a blank
line, a line that upserts, and a last line that is cut off within a character. -/
theorem program_without_sweeper_input_cut_off :
    let args := ["--max-age", "5", "--no-sweeper"]
    let input : List UInt8 := [32, 10] ++ "upsert a x\r\nlist\n".toUTF8.toList ++ [97, 0xC3]
    let clock : Clock := ⟨0, 1, 0⟩
    Options.parse args = .ok { maxAge := 5, noSweeper := true } ∧
      ("--no-sweeper" ∈ args ∧ "--no-console" ∉ args ∧
        (Session.start clock).Readable ((Text.goodLines input).map .line)) ∧
      ∃ p, Program.run (3600 * nanosPerSecond) args input clock false = some p ∧ p.status = 0 ∧
        p.output = (Session.start clock).transcript ((Text.goodLines input).map .line) ∧
        p.log = [.consoleFailed "stream did not contain valid UTF-8", .exiting 1] := by
  intro args input clock
  have hparse : Options.parse args = .ok { maxAge := 5, noSweeper := true } := by decide +kernel
  have hread : (Session.start clock).Readable ((Text.goodLines input).map .line) := by
    decide +kernel
  obtain ⟨h, -, -⟩ := program_without_sweeper hparse (3600 * nanosPerSecond) input clock
  obtain ⟨hrun, hwritten, -, -⟩ := h (by decide) (by decide) hread
  refine ⟨hparse, ⟨by decide, by decide, hread⟩, _, hrun, rfl, hwritten, ?_⟩
  decide +kernel

end Presence
