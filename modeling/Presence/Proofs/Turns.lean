/-
Presence/Proofs/Turns.lean

What a console on a terminal does, turn after turn.

A program on a terminal has its console take one reading after the other
(`Watch.turns`); it neither has the whole input in front of it, as a console at work
has, nor a timeline, as a user beside the sweeper has.  It does what these do.

    beside the sweeper    The turn on a line is the action of handing this line over, at
                          the time at which it has been read (`Watch.turn_line`).  As long
                          as nothing breaks off, turns on lines are therefore the user's
                          run on these actions (`Watch.turns_lines`).

    on the whole input    Where no time goes by between readings, a turn is a step of the
                          console that has the input in front of it (`Console.AsFarAs.step`).
                          The turns are then its run (`Watch.turns_eq_run`).
-/
import Presence.Program
import Presence.Proofs.ConsoleRun
import Presence.Proofs.SweeperFrame
import Presence.Turn

namespace Presence

/-! ### Beside the sweeper -/

/-- What the terminal is shown of a step. -/
def Step.turn (s : Step) : Turn where
  stop? := match s.answer with
    | .ok _ => none
    | .error f => some (.broken f)
  log := s.log
  output := s.reply?.toList.flatMap fun r => Sink.lineBytes r.text

theorem Step.stop?_turn_eq_none_iff (s : Step) : s.turn.stop? = none ↔ s.answer.isOk = true := by
  obtain ⟨f | a, size, log⟩ := s <;> simp [turn, Except.isOk, Except.toBool]

/-- With room for everything, the console does with a line what the session does, and the terminal
is shown it. -/
theorem Console.handle_of_room {c : Console} {s : Session} (hnode : s.node = c.node)
    (hroom : c.sink.room = none) (hchunk : c.sink.chunk ≠ some 0) (text : String) :
    let step := (s.perform (.line text)).1
    c.handle text = (step.turn.stop?, { c.logging step.log with
      node := (s.perform (.line text)).2.node
      sink := c.sink.advance step.turn.output step.reply?.toList.length }) := by
  -- there is no limit that anything could exceed
  have hfits (bytes : List UInt8) : c.sink.Fits bytes := by
    intro room hlimited
    rw [hroom] at hlimited
    cases hlimited
  -- both have the same node respond, and what the console does then hangs on the result alone
  obtain ⟨n, held⟩ := s
  obtain rfl : n = c.node := hnode
  simp only [Session.perform, Session.outcome, handle_eq, heard]
  generalize c.node.respond text = o
  obtain ⟨f | - | r, node, log⟩ := o
  case error =>
    exact congrArg (fun sink => (some _, ({ c.logging log with node, sink } : Console)))
      c.sink.advance_nil.symm
  case ok.none =>
    exact congrArg (fun sink => (none, ({ c.logging log with node, sink } : Console)))
      c.sink.advance_nil.symm
  case ok.some =>
    have hsend : c.sink.sendLine r.text = (true, c.sink.advance (Sink.lineBytes r.text) 1) :=
      c.sink.sendLine_of_fits hchunk (hfits _)
    show deliver ({ c.logging log with node } : Console) (.ok (some r)) =
      (none, { c.logging log with
        node, sink := c.sink.advance ([r].flatMap fun r => Sink.lineBytes r.text) 1 })
    rw [List.flatMap_singleton, deliver]
    dsimp only [logging]
    rw [hsend]

namespace Watch

variable {w : Watch}

section

variable {t : Nat} {read : Reading} {rest : List (Nat × Reading)}

theorem turns_of_stop {why : ConsoleEnd} (h : (w.turn t read).1.stop? = some why) :
    w.turns ((t, read) :: rest) = ([(w.turn t read).1], (w.turn t read).2) := by
  simp only [turns, h]

theorem turns_of_go (h : (w.turn t read).1.stop? = none) :
    w.turns ((t, read) :: rest) = ((w.turn t read).1 :: ((w.turn t read).2.turns rest).1,
      ((w.turn t read).2.turns rest).2) := by
  simp only [turns, h]

theorem now_turn : (w.turn t read).2.now = max w.now t := w.now_waitUntil t

end

/-- **A turn on a line is an action of the user's**, at the time at which the line has been read. -/
theorem turn_line (h : w.cancelled = false) (t : Nat) (text : String) :
    w.turn t (some (.ok text)) =
      (((w.waitUntil t).perform (.line text)).1.turn,
        ((w.waitUntil t).perform (.line text)).2) := by
  have hwaiting : (w.waitUntil t).cancelled = false := (w.cancelled_waitUntil t).trans h
  rw [turn]
  generalize w.waitUntil t = v at hwaiting
  -- the console has the line in front of it and nothing behind
  have hfeed : (v.console (some (.ok text))).feed = ⟨[(Cue.line text).event], false⟩ := by
    rw [console, hwaiting]
    rfl
  have hstep := (Console.step_line hfeed).trans
    (Console.handle_of_room (s := v.session) rfl rfl (Option.some_ne_none 0).symm text)
  dsimp only
  rw [hstep]
  refine Prod.ext ?_ rfl
  show (⟨_, (v.log.append _).toList, (Sink.advance {} _ _).written.toList⟩ : Turn) = _
  rw [Trail.toList_append, Sink.toList_written_advance]
  rfl

/-- **Turns on lines are a session beside the sweeper.**  As long as none of the lines breaks off,
each turn shows what the step of the session comes to, and then it goes on where the session
does. -/
theorem turns_lines (typed : List (Nat × String)) (more : List (Nat × Reading))
    (h : w.cancelled = false)
    (hok : ∀ step ∈ (w.run (typed.map fun e => (e.1, .line e.2))).1, step.answer.isOk = true) :
    let run := w.run (typed.map fun e => (e.1, .line e.2))
    w.turns (typed.map (fun e => (e.1, some (.ok e.2))) ++ more) =
      (run.1.map Step.turn ++ (run.2.turns more).1, (run.2.turns more).2) := by
  induction typed generalizing w with
  | nil => rfl
  | cons e rest ih =>
    simp only [List.map_cons, run, List.forall_mem_cons] at hok
    obtain ⟨hfirst, hrest⟩ := hok
    have hgoes : ((w.waitUntil e.1).perform (.line e.2)).1.turn.stop? = none :=
      (Step.stop?_turn_eq_none_iff _).2 hfirst
    have hcancelled : ((w.waitUntil e.1).perform (.line e.2)).2.cancelled = false :=
      (w.cancelled_waitUntil e.1).trans h
    simp only [List.map_cons, List.cons_append, turns, turn_line h, hgoes, run, ih hcancelled hrest]

/-- The sweep at thirty seconds is over when the console takes the line that is read after it. -/
example : ((Program.watch 0 { maxAge := 5, sweepInterval := 30 } ⟨0, 1, 0⟩).turns
    [(0, some (.ok "upsert a x")), (31000000000, some (.ok "list")), (32000000000, none)]).1.map
      Turn.output = ["ok\n".toUTF8.toList, "\x7b\x7d\n".toUTF8.toList, []] := by
  decide +kernel

end Watch

/-! ### On the whole input -/

/-- What is read of lines, one after the other, and of the end behind them. -/
def readings (lines : List (Except InputError String)) : List Reading := lines.map some ++ [none]

namespace Console

variable {read : Reading}

/-- Where there is no line, a console notes something and stops, and this hangs on nothing else. -/
theorem exists_stop (hread : ∀ text, read ≠ some (.ok text)) :
    ∃ why notices, ∀ (c : Console) (later : List (Except InputError String)),
      (read = none → later = []) → c.feed = feedOfLines false (read.toList ++ later) →
      c.step = (some why,
        { c with feed := feedOfLines false later : Console }.logging notices) := by
  match read with
  | none =>
    refine ⟨.inputEnded, [.inputClosed], ?_⟩
    intro c later hend hfeed
    obtain rfl := hend rfl
    rw [step_end hfeed, ← show c.feed = feedOfLines false [] from hfeed]
  | some (.error e) =>
    refine ⟨.inputFailed e, [.inputFailed e.message], ?_⟩
    intro c later _ hfeed
    unfold step
    rw [hfeed]
    rfl
  | some (.ok text) => exact absurd rfl (hread text)

/-- The console has come as far, with its whole input in front of it, as a run has in turns of
which so much has been shown. -/
structure AsFarAs (c : Console) (w : Watch) (shown : List Turn) : Prop where
  going : w.cancelled = false
  node : w.session.node = c.node
  log : c.log.toList = shown.flatMap Turn.log ++ w.log.toList
  written : c.sink.written.toList = shown.flatMap Turn.output
  room : c.sink.room = none
  chunk : c.sink.chunk ≠ some 0

namespace AsFarAs

variable {c : Console} {w : Watch} {shown : List Turn} {later : List (Except InputError String)}

/-- A step of the console is a turn on what it finds in front of it. -/
theorem step (h : c.AsFarAs w shown) (read : Reading) (hend : read = none → later = [])
    (hfeed : c.feed = feedOfLines false (read.toList ++ later)) :
    c.step.1 = (w.turn w.now read).1.stop? ∧ c.step.2.feed = feedOfLines false later ∧
      c.step.2.AsFarAs (w.turn w.now read).2 (shown ++ [(w.turn w.now read).1]) := by
  have hnow : w.waitUntil w.now = w := Watch.waitUntil_of_le (Nat.le_refl _)
  -- on a line both carry out the same action, and on anything else both stop
  by_cases hread : ∃ text, read = some (.ok text)
  · obtain ⟨text, rfl⟩ := hread
    have hhandle := handle_of_room (c := { c with feed := feedOfLines false later }) h.node h.room
      h.chunk text
    rw [Watch.turn_line h.going, hnow, (step_line hfeed).trans hhandle]
    refine ⟨rfl, rfl, h.going, rfl, ?_, ?_, ?_, h.chunk⟩
    · show (c.log.append _).toList = _
      rw [Trail.toList_append, h.log, List.flatMap_append]
      simp [Step.turn, Watch.perform]
    · show (c.sink.advance _ _).written.toList = _
      rw [Sink.toList_written_advance, h.written, List.flatMap_append]
      simp [Step.turn, Step.reply?, Watch.perform]
    · show c.sink.room.map _ = none
      rw [h.room]
      rfl
  · obtain ⟨why, notices, hstop⟩ := exists_stop (not_exists.1 hread)
    have hturn := hstop (w.console read) [] (fun _ => rfl) (by rw [Watch.console, h.going]; simp)
    rw [Watch.turn, hnow]
    dsimp only
    rw [hturn, hstop c later hend hfeed]
    refine ⟨rfl, rfl, h.going, h.node, ?_, ?_, h.room, h.chunk⟩
    · show (c.log.append _).toList = _
      rw [Trail.toList_append, h.log, List.flatMap_append]
      simp [Watch.after, logging, Watch.console]
    · show c.sink.written.toList = _
      rw [h.written, List.flatMap_append]
      simp [Watch.console, logging]

/-- Where a turn stops, so does the console. -/
theorem run_of_stop {t : Nat} {rest : List (Nat × Reading)} {why : ConsoleEnd}
    (hstep : c.step.1 = (w.turn t read).1.stop?) (hwhy : (w.turn t read).1.stop? = some why)
    (hnext : c.step.2.AsFarAs (w.turn t read).2 (shown ++ [(w.turn t read).1])) :
    let taken := w.turns ((t, read) :: rest)
    taken.1.findSome? Turn.stop? = some c.run.1 ∧
      c.run.2.AsFarAs taken.2 (shown ++ taken.1) ∧ taken.2.log = .empty := by
  rw [Console.run_of_stop (Prod.ext (hstep.trans hwhy) rfl), Watch.turns_of_stop hwhy]
  refine ⟨?_, hnext, rfl⟩
  rw [List.findSome?_singleton, hwhy]

/-- As long as no time goes by, the run of the console is the turns on its input. -/
theorem run (h : c.AsFarAs w shown) {lines : List (Except InputError String)}
    (hfeed : c.feed = feedOfLines false lines) :
    let taken := w.turns ((readings lines).map fun read => (w.now, read))
    taken.1.findSome? Turn.stop? = some c.run.1 ∧
      c.run.2.AsFarAs taken.2 (shown ++ taken.1) ∧ taken.2.log = .empty := by
  induction lines generalizing c w shown with
  | nil =>
    obtain ⟨hstep, -, hnext⟩ := h.step none (fun _ => rfl) hfeed
    have hwhy : (w.turn w.now none).1.stop? = some .inputEnded := by
      rw [← hstep, step_end hfeed]
    exact run_of_stop hstep hwhy hnext
  | cons line rest ih =>
    have hfeed' : c.feed = feedOfLines false ((some line).toList ++ rest) := hfeed
    obtain ⟨hstep, hleft, hnext⟩ := h.step (some line) nofun hfeed'
    rcases hwhy : (w.turn w.now (some line)).1.stop? with - | why
    · -- both go on, at the same time as before
      have hnow : (w.turn w.now (some line)).2.now = w.now := by rw [Watch.now_turn, Nat.max_self]
      obtain ⟨hstop, hrun, hlog⟩ := ih hnext hleft
      rw [hnow] at hstop hrun hlog
      intro taken
      have htaken : taken = _ := Watch.turns_of_go hwhy
      rw [htaken, Console.run_of_step (Prod.ext (hstep.trans hwhy) rfl), List.append_cons]
      refine ⟨?_, hrun, hlog⟩
      rw [List.findSome?_cons, hwhy]
      exact hstop
    · exact run_of_stop hstep hwhy hnext

end AsFarAs

end Console

/-- **Turns are a run of the console.**  Where no time goes by between readings, the turns on the
lines of an input and on its end come to what a console comes to that has all of it in front of
it: they stop for the same reason, together they show what it writes and logs, and they leave its
node. -/
theorem Watch.turns_eq_run {w : Watch} (h : w.cancelled = false)
    (lines : List (Except InputError String)) :
    let (turns, last) := w.turns ((readings lines).map fun read => (w.now, read))
    let (why, c) := Console.run
      { node := w.session.node, feed := Console.feedOfLines false lines, log := w.log }
    turns.findSome? Turn.stop? = some why ∧ turns.flatMap Turn.output = c.sink.written.toList ∧
      turns.flatMap Turn.log = c.log.toList ∧ last.session.node = c.node := by
  have hstart : Console.AsFarAs
      { node := w.session.node, feed := Console.feedOfLines false lines, log := w.log } w [] :=
    ⟨h, rfl, rfl, rfl, rfl, (Option.some_ne_none 0).symm⟩
  obtain ⟨hstop, hrun, hlog⟩ := hstart.run rfl
  refine ⟨hstop, hrun.written.symm, ?_, hrun.node⟩
  have hshown := hrun.log
  rw [hlog, Trail.toList_empty, List.append_nil] at hshown
  exact hshown.symm

/-- The program's console is its turns on the standard input. -/
theorem Program.console_eq_turns {o : Options} (h : o.noConsole = false) (uptime : Nat)
    (input : List UInt8) (clock : Clock) :
    let (turns, last) := (watch uptime o clock).turns
      ((readings (Text.lines input)).map fun read => (0, read))
    ∃ why c, console o input clock = some (why, c) ∧ turns.findSome? Turn.stop? = some why ∧
      turns.flatMap Turn.output = c.sink.written.toList ∧
      turns.flatMap Turn.log = c.log.toList ∧ last.session.node = c.node := by
  refine ⟨_, _, ?_, (watch uptime o clock).turns_eq_run rfl (Text.lines input)⟩
  rw [console, h]
  rfl

end Presence
