/-
Presence/Proofs/ConsoleCourse.lean

How far a console gets in its input, and how it ends.

The input is a list of events: lines and settings of the clock, which are cues,
failures, orders to stop, and hangs.  A `Course` is what becomes of it,

    script   the cues that are taken, in order,
    ending   why the console stops,
    unread   the events that are never taken.

It is read off the list (`Course.ofEvents`): the cues in front are taken, and the
first other event decides.  An order to stop is not yet the end.  It is on its
way while the clock is set or the order is repeated, and the event behind that
is still taken; if this is a line, it is the last one.

Main result: a console whose sink is not limited follows the course of its input
(`console_run_eq_course`).  The cues in front are the script that
`Console.run_of_script` is about; what an order to stop lets through is an
induction of its own.
-/
import Presence.Proofs.BreakOff
import Presence.Proofs.ConsoleRun

namespace Presence

/-- What a console's source delivers. -/
abbrev LineEvent := Event Int (Except InputError String)

/-- The event passes by while an order to stop is on its way. -/
def Event.isLull {ε α : Type} : Event ε α → Bool
  | aside _ | cancel => true
  | item _ | hang => false

namespace Cue

/-- The cue that an event is, if it is one. -/
def ofEvent? : LineEvent → Option Cue
  | .item (.ok text) => some (.line text)
  | .aside t => some (.setClock t)
  | .item (.error _) | .cancel | .hang => none

/-- The event is a cue. -/
def isEvent (e : LineEvent) : Bool := (ofEvent? e).isSome

/-- The cues among events. -/
def ofEvents (events : List LineEvent) : List Cue := events.filterMap ofEvent?

/-- The cue is a line. -/
def isLine : Cue → Bool
  | line _ => true
  | setClock _ => false

@[simp] theorem ofEvent?_event (cue : Cue) : ofEvent? cue.event = some cue := by
  cases cue <;> rfl

@[simp] theorem ofEvents_event (cue : Cue) (events : List LineEvent) :
    ofEvents (cue.event :: events) = cue :: ofEvents events :=
  List.filterMap_cons_some cue.ofEvent?_event

/-- An event is a cue, or one of those that decide. -/
theorem event_cases (e : LineEvent) :
    (∃ cue : Cue, e = cue.event) ∨ (∃ f, e = .item (.error f)) ∨ e = .cancel ∨ e = .hang := by
  rcases e with (f | text) | t | - | -
  · exact Or.inr (Or.inl ⟨f, rfl⟩)
  · exact Or.inl ⟨.line text, rfl⟩
  · exact Or.inl ⟨.setClock t, rfl⟩
  · exact Or.inr (Or.inr (Or.inl rfl))
  · exact Or.inr (Or.inr (Or.inr rfl))

/-- The cues in front of an input are a script. -/
theorem map_event_takeWhile (events : List LineEvent) :
    (ofEvents (events.takeWhile isEvent)).map event = events.takeWhile isEvent := by
  induction events with
  | nil => rfl
  | cons e rest ih =>
    obtain ⟨cue, rfl⟩ | ⟨f, rfl⟩ | rfl | rfl := event_cases e
    · have hcue : isEvent cue.event = true := by simp [isEvent]
      rw [List.takeWhile_cons_of_pos hcue, ofEvents_event, List.map_cons, ih]
    all_goals rfl

end Cue

/-! ### Courses -/

/-- What becomes of a console's input. -/
structure Course where
  /-- The cues that are taken. -/
  script : List Cue
  /-- Why the console stops. -/
  ending : ConsoleEnd
  /-- The events that are never taken. -/
  unread : List LineEvent

namespace Course

/-- The course with cues in front. -/
def told (script : List Cue) (course : Course) : Course :=
  { course with script := script ++ course.script }

/-- What an event leads to when an order to stop has passed: a line is taken as the last one. -/
def ofLast : List LineEvent → Course
  | .item (.ok text) :: rest => ⟨[.line text], .stopped, rest⟩
  | .item (.error e) :: rest => ⟨[], .inputFailed e, rest⟩
  | .hang :: rest => ⟨[], .stopped, rest⟩
  | _ => ⟨[], .inputEnded, []⟩

/-- The course behind an order to stop: the order passes, and one more event is taken. -/
def afterCancel (events : List LineEvent) : Course :=
  (ofLast (events.dropWhile Event.isLull)).told (Cue.ofEvents (events.takeWhile Event.isLull))

/-- What the first event leads to that is no cue. -/
def ofOther : List LineEvent → Course
  | .item (.error e) :: rest => ⟨[], .inputFailed e, rest⟩
  | .cancel :: rest => afterCancel rest
  | .hang :: rest => ⟨[], .stopped, rest⟩
  | _ => ⟨[], .inputEnded, []⟩

/-- The course of an input: the cues in front, and what the event behind them leads to. -/
def ofEvents (events : List LineEvent) : Course :=
  (ofOther (events.dropWhile Cue.isEvent)).told (Cue.ofEvents (events.takeWhile Cue.isEvent))

variable (rest : List LineEvent)

theorem ofEvents_event (cue : Cue) : ofEvents (cue.event :: rest) = (ofEvents rest).told [cue] := by
  cases cue <;> rfl

theorem ofEvents_cancel : ofEvents (.cancel :: rest) = (afterCancel rest).told [] := rfl

theorem afterCancel_aside (t : Int) :
    afterCancel (.aside t :: rest) = (afterCancel rest).told [.setClock t] := rfl

theorem afterCancel_cancel : afterCancel (.cancel :: rest) = (afterCancel rest).told [] := rfl

/-! ### Endings -/

variable (events : List LineEvent)

theorem ending_ofLast_eq_inputFailed {e : InputError} :
    (ofLast events).ending = .inputFailed e ↔ events.head? = some (.item (.error e)) := by
  rcases events with - | ⟨(f | text) | t | - | -, rest⟩ <;> simp [ofLast]

/-- The input fails for the console if a failure is the first event that is no cue, or the first
one that an order to stop lets through. -/
theorem ending_ofEvents_eq_inputFailed {e : InputError} :
    (ofEvents events).ending = .inputFailed e ↔
      (events.dropWhile Cue.isEvent).head? = some (.item (.error e)) ∨
        ∃ rest, events.dropWhile Cue.isEvent = .cancel :: rest ∧
          (rest.dropWhile Event.isLull).head? = some (.item (.error e)) := by
  show (ofOther (events.dropWhile Cue.isEvent)).ending = .inputFailed e ↔ _
  rcases events.dropWhile Cue.isEvent with - | ⟨(f | text) | t | - | -, rest⟩
  case cons.cancel =>
    have hlast : (afterCancel rest).ending = (ofLast (rest.dropWhile Event.isLull)).ending := rfl
    simp [ofOther, hlast, ending_ofLast_eq_inputFailed]
  all_goals simp [ofOther]

theorem ending_ofEvents_cases :
    (ofEvents events).ending = .inputEnded ∨ (ofEvents events).ending = .stopped ∨
      ∃ e, (ofEvents events).ending = .inputFailed e := by
  have hlast (l : List LineEvent) : (ofLast l).ending = .inputEnded ∨
      (ofLast l).ending = .stopped ∨ ∃ e, (ofLast l).ending = .inputFailed e := by
    rcases l with - | ⟨(f | text) | t | - | -, rest⟩ <;> simp [ofLast]
  show (ofOther (events.dropWhile Cue.isEvent)).ending = _ ∨
    (ofOther (events.dropWhile Cue.isEvent)).ending = _ ∨
      ∃ e, (ofOther (events.dropWhile Cue.isEvent)).ending = _
  rcases events.dropWhile Cue.isEvent with - | ⟨(f | text) | t | - | -, rest⟩
  case cons.cancel => exact hlast (rest.dropWhile Event.isLull)
  all_goals simp [ofOther]

/-! ### Lines behind an order to stop -/

theorem countP_afterCancel_le : (afterCancel events).script.countP Cue.isLine ≤ 1 := by
  induction events with
  | nil => exact Nat.zero_le 1
  | cons e rest ih =>
    rcases e with (e | text) | t | - | -
    · exact Nat.zero_le 1
    · exact Nat.le_refl 1
    · rw [afterCancel_aside]
      exact ih
    · rw [afterCancel_cancel]
      exact ih
    · exact Nat.zero_le 1

/-- No more than one line is taken that comes behind an order to stop. -/
theorem countP_ofEvents_le (earlier later : List LineEvent) :
    (ofEvents (earlier ++ .cancel :: later)).script.countP Cue.isLine ≤
      (Cue.ofEvents earlier).countP Cue.isLine + 1 := by
  induction earlier with
  | nil => exact countP_afterCancel_le later
  | cons e rest ih =>
    obtain ⟨cue, rfl⟩ | ⟨f, rfl⟩ | rfl | rfl := Cue.event_cases e
    · rw [List.cons_append, ofEvents_event, Cue.ofEvents_event, told]
      simp only [List.singleton_append, List.countP_cons]
      omega
    · exact Nat.zero_le _
    · exact Nat.le_trans (countP_afterCancel_le _) (Nat.le_add_left _ _)
    · exact Nat.zero_le _

/-! ### What is unread -/

/-- The course that `course` gives to `events` rests on the events in front of the unread ones: it
comes to the end of the input, or whatever else is unread would not change it. -/
def RestsOnTaken (course : List LineEvent → Course) (events : List LineEvent) : Prop :=
  ∃ taken, events = taken ++ (course events).unread ∧
    ((course events).ending = .inputEnded ∧ (course events).unread = [] ∨
      ∀ other, course (taken ++ other) = { course events with unread := other })

namespace RestsOnTaken

variable {course : List LineEvent → Course} {rest} {e : LineEvent}

/-- The event is taken, and what it leads to is the course of the events behind it. -/
theorem cons {next : List LineEvent → Course} {script : List Cue}
    (hnext : ∀ l, course (e :: l) = (next l).told script) (h : RestsOnTaken next rest) :
    RestsOnTaken course (e :: rest) := by
  obtain ⟨taken, hrest, hends⟩ := h
  refine ⟨e :: taken, ?_, ?_⟩
  · rw [hnext, List.cons_append]
    exact congrArg (e :: ·) hrest
  · refine hends.imp ?_ ?_
    · intro hended
      rw [hnext]
      exact hended
    · intro hother other
      rw [List.cons_append, hnext, hnext, hother]
      rfl

/-- The event is the last one. -/
theorem last {script : List Cue} {why : ConsoleEnd}
    (hlast : ∀ l, course (e :: l) = ⟨script, why, l⟩) :
    RestsOnTaken course (e :: rest) := by
  refine ⟨[e], ?_, Or.inr ?_⟩
  · rw [hlast]
    rfl
  · intro other
    rw [hlast]
    exact hlast other

end RestsOnTaken

theorem restsOnTaken_afterCancel : RestsOnTaken afterCancel events := by
  induction events with
  | nil => exact ⟨[], rfl, Or.inl ⟨rfl, rfl⟩⟩
  | cons e rest ih =>
    rcases e with (e | text) | t | - | -
    · exact .last fun _ => rfl
    · exact .last fun _ => rfl
    · exact ih.cons fun l => afterCancel_aside l t
    · exact ih.cons afterCancel_cancel
    · exact .last fun _ => rfl

theorem restsOnTaken_ofEvents : RestsOnTaken ofEvents events := by
  induction events with
  | nil => exact ⟨[], rfl, Or.inl ⟨rfl, rfl⟩⟩
  | cons e rest ih =>
    obtain ⟨cue, rfl⟩ | ⟨f, rfl⟩ | rfl | rfl := Cue.event_cases e
    · exact ih.cons fun l => ofEvents_event l cue
    · exact .last fun _ => rfl
    · exact (restsOnTaken_afterCancel rest).cons ofEvents_cancel
    · exact .last fun _ => rfl

end Course

/-! ### Readings -/

/-- Every cue of the script that looks at the clock finds one that can be read. -/
def Session.Readable (s : Session) : List Cue → Prop
  | [] => True
  | cue :: rest =>
    (cue.action.readsClock s.node.registry = true → s.node.clock.Readable) ∧
      (s.perform cue.action).2.Readable rest

theorem Session.Readable.unbroken {s : Session} {script : List Cue} (h : s.Readable script) :
    s.Unbroken script := by
  induction script generalizing s with
  | nil => exact fun step hstep => absurd hstep List.not_mem_nil
  | cons cue rest ih =>
    obtain ⟨hfirst, hrest⟩ := h
    refine (s.unbroken_cons rest cue).2 ⟨?_, ih hrest⟩
    intro step hstep
    obtain rfl := List.mem_singleton.1 hstep
    rcases hanswer : (s.perform cue.action).1.answer with f | a
    · obtain ⟨hreads, hread⟩ := (s.error_iff cue.action).1 ⟨f, hanswer⟩
      exact absurd (hfirst hreads) hread
    · show (s.perform cue.action).1.answer.isOk = true
      rw [hanswer]
      rfl

instance Session.decidableReadable (s : Session) :
    (script : List Cue) → Decidable (s.Readable script)
  | [] => .isTrue trivial
  | cue :: rest =>
    have := (s.perform cue.action).2.decidableReadable rest
    inferInstanceAs (Decidable (_ ∧ _))

/-! ### A console along a course -/

/-- The sink takes whatever it is given. -/
def Sink.Unlimited (s : Sink) : Prop := s.room = none ∧ s.chunk ≠ some 0

namespace Sink.Unlimited

variable {s : Sink} (h : s.Unlimited) (bytes : List UInt8)

include h

theorem fits : s.Fits bytes := by simp [Fits, h.1]

theorem advance (n : Nat) : (s.advance bytes n).Unlimited := by
  refine ⟨?_, h.2⟩
  show s.room.map (· - bytes.length) = none
  rw [h.1]
  rfl

end Sink.Unlimited

namespace Console

variable {c next : Console} {s : Session} {course : Course} {events : List LineEvent}

/-- The console's run is that of a session along a course, with every reply written and flushed. -/
structure Follows (c : Console) (s : Session) (course : Course) : Prop where
  /-- It ends as the course does. -/
  ending : c.run.1 = course.ending
  /-- The node has been told the script. -/
  node : c.run.2.node = (s.tell course.script).2.node
  /-- The replies have been written, with a flush after each. -/
  sink : c.run.2.sink =
    c.sink.advance (s.transcript course.script) (s.replies course.script).length
  /-- The rest has not been taken. -/
  unread : c.run.2.feed.events = course.unread

namespace Follows

theorem of_stop {why : ConsoleEnd} (hwhy : c.step.1 = some why) (hnode : s.node = c.step.2.node)
    (hsink : c.step.2.sink = c.sink) (hleft : c.step.2.feed.events = events) :
    c.Follows s ⟨[], why, events⟩ := by
  have hrun : c.run = (why, c.step.2) := run_of_stop (Prod.ext hwhy rfl)
  refine ⟨congrArg Prod.fst hrun, ?_, ?_, ?_⟩
  · rw [hrun]
    exact hnode.symm
  · rw [hrun, hsink]
    exact c.sink.advance_nil.symm
  · rw [hrun]
    exact hleft

theorem told (script : List Cue) (hrun : c.run = next.run)
    (hsink : next.sink = c.sink.advance (s.transcript script) (s.replies script).length)
    (h : next.Follows (s.tell script).2 course) : c.Follows s (course.told script) := by
  refine ⟨?_, ?_, ?_, ?_⟩
  · rw [hrun, h.ending]
    rfl
  · rw [hrun, h.node, Course.told, s.tell_append]
  · rw [hrun, h.sink, hsink, Sink.advance_advance, Course.told, s.transcript_append,
      s.replies_append, List.length_append]
  · rw [hrun, h.unread]
    rfl

end Follows

/-- Once the order to stop is in force, nothing is taken. -/
theorem follows_of_cancelled (hnode : s.node = c.node) (hfeed : c.feed = ⟨events, true⟩) :
    c.Follows s ⟨[], .stopped, events⟩ := by
  obtain ⟨node, feed, sink, log⟩ := c
  obtain rfl := hfeed
  exact .of_stop rfl hnode rfl rfl

/-- What an order to stop lets through: the wait goes on to the next item, and no further. -/
theorem follows_afterCancel (hnode : s.node = c.node) (hfeed : c.feed = ⟨.cancel :: events, false⟩)
    (hsink : c.sink.Unlimited) (hread : s.Unbroken (Course.afterCancel events).script) :
    c.Follows s (Course.afterCancel events) := by
  induction events generalizing c s with
  | nil =>
    obtain ⟨node, feed, sink, log⟩ := c
    obtain rfl := hfeed
    exact .of_stop rfl hnode rfl rfl
  | cons e rest ih =>
    obtain ⟨node, feed, sink, log⟩ := c
    obtain rfl := hfeed
    rcases e with (e | text) | t | - | -
    · exact .of_stop rfl hnode rfl rfl
    · -- the line is carried out, and the next wait finds the order in force
      have hnode' : s.node = (⟨node, ⟨rest, true⟩, sink, log⟩ : Console).node := hnode
      obtain ⟨next, hhandle, htold, hleft, hwritten⟩ :=
        handle_of_fits hnode' hread hsink.2 (hsink.fits _)
      have hstep : Console.step
          ⟨node, ⟨.cancel :: .item (.ok text) :: rest, false⟩, sink, log⟩ = (none, next) := hhandle
      exact .told [.line text] (run_of_step hstep) hwritten (follows_of_cancelled htold hleft)
    · rw [Course.afterCancel_aside] at hread ⊢
      have hset : (s.tell [.setClock t]).2.node = setClock [t] node := by
        rw [← show s.node = node from hnode]
        rfl
      have hrun : Console.run ⟨node, ⟨.cancel :: .aside t :: rest, false⟩, sink, log⟩ =
          Console.run ⟨setClock [t] node, ⟨.cancel :: rest, false⟩, sink, log⟩ := run_congr rfl
      exact .told [.setClock t] hrun sink.advance_nil.symm
        (ih hset rfl hsink ((s.unbroken_cons _ _).1 hread).2)
    · rw [Course.afterCancel_cancel] at hread ⊢
      have hrun : Console.run ⟨node, ⟨.cancel :: .cancel :: rest, false⟩, sink, log⟩ =
          Console.run ⟨node, ⟨.cancel :: rest, false⟩, sink, log⟩ := run_congr rfl
      exact .told [] hrun sink.advance_nil.symm (ih hnode rfl hsink hread)
    · exact .of_stop rfl hnode rfl rfl

/-- The event behind the cues decides. -/
theorem follows_ofOther (hnode : s.node = c.node) (hfeed : c.feed = ⟨events, false⟩)
    (hsink : c.sink.Unlimited) (hother : ∀ e ∈ events.head?, Cue.isEvent e = false)
    (hread : s.Unbroken (Course.ofOther events).script) :
    c.Follows s (Course.ofOther events) := by
  obtain ⟨node, feed, sink, log⟩ := c
  obtain rfl := hfeed
  rcases events with - | ⟨e, rest⟩
  · exact .of_stop rfl hnode rfl rfl
  · obtain ⟨cue, rfl⟩ | ⟨f, rfl⟩ | rfl | rfl := Cue.event_cases e
    · simp [Cue.isEvent] at hother
    · exact .of_stop rfl hnode rfl rfl
    · exact follows_afterCancel hnode rfl hsink hread
    · exact .of_stop rfl hnode rfl rfl

theorem follows_ofEvents (hnode : s.node = c.node) (hfeed : c.feed = ⟨events, false⟩)
    (hsink : c.sink.Unlimited) (hread : s.Unbroken (Course.ofEvents events).script) :
    c.Follows s (Course.ofEvents events) := by
  have hsplit : c.feed = ⟨(Cue.ofEvents (events.takeWhile Cue.isEvent)).map Cue.event ++
      events.dropWhile Cue.isEvent, false⟩ := by
    rw [hfeed, Cue.map_event_takeWhile, List.takeWhile_append_dropWhile]
  obtain ⟨hcues, hrest⟩ := (s.unbroken_append _ _).1 hread
  obtain ⟨next, hrun, htold, hleft, hwritten⟩ :=
    run_of_script _ hnode hsplit hsink.2 hcues (hsink.fits _)
  have hsink' : next.sink.Unlimited := by
    rw [hwritten]
    exact hsink.advance _ _
  refine .told _ hrun hwritten (follows_ofOther htold hleft hsink' ?_ hrest)
  intro e he
  have hnot := List.head?_dropWhile_not Cue.isEvent events
  rw [Option.mem_def.1 he] at hnot
  exact hnot

end Console

/-- **A console follows the course of its input.**  Under an order to stop from the beginning it
takes nothing.  Otherwise it takes the cues in front of the first failure, order to stop or hang,
and what an order to stop lets through: it writes the replies to these and flushes after each, has
the session's registry, and ends as the course says.  This is with a failure of the input only if
the failure comes first, or first behind an order to stop.  What is unread could be anything else,
and of the lines behind an order to stop no more than one is taken. -/
theorem console_run_eq_course (clock : Clock) (events : List LineEvent) (chunk : Option Nat)
    (hchunk : chunk ≠ some 0) :
    let s := Session.start clock
    let run (events : List LineEvent) (cancelled : Bool) := Console.run
      { node := Node.fresh clock, feed := ⟨events, cancelled⟩, sink := { chunk } }
    let course := Course.ofEvents events
    ((run events true).1 = .stopped ∧ (run events true).2.sink.written.toList = [] ∧
        (run events true).2.sink.flushes = 0 ∧
        (run events true).2.node.registry = Registry.empty ∧
        (run events true).2.feed.events = events) ∧
      (s.Readable course.script →
        (run events false).1 = course.ending ∧
          (run events false).2.sink.written.toList = s.transcript course.script ∧
          (run events false).2.sink.flushes = (s.replies course.script).length ∧
          (run events false).2.node.registry = (s.tell course.script).2.node.registry ∧
          (run events false).2.feed.events = course.unread ∧
          (∀ e, (run events false).1 = .inputFailed e ↔
            (events.dropWhile Cue.isEvent).head? = some (.item (.error e)) ∨
              ∃ rest, events.dropWhile Cue.isEvent = .cancel :: rest ∧
                (rest.dropWhile Event.isLull).head? = some (.item (.error e))) ∧
          ((∀ e, (run events false).1 ≠ .inputFailed e) →
            (run events false).1 = .inputEnded ∨ (run events false).1 = .stopped) ∧
          ∃ taken, events = taken ++ course.unread ∧
            ((run events false).1 = .inputEnded ∧ course.unread = [] ∨ ∀ other,
              (run (taken ++ other) false).1 = (run events false).1 ∧
                (run (taken ++ other) false).2.sink = (run events false).2.sink ∧
                (run (taken ++ other) false).2.node = (run events false).2.node ∧
                (run (taken ++ other) false).2.feed.events = other)) ∧
      ∀ earlier later, events = earlier ++ .cancel :: later →
        course.script.countP Cue.isLine ≤ (Cue.ofEvents earlier).countP Cue.isLine + 1 := by
  intro s run course
  let start (l : List LineEvent) (cancelled : Bool) : Console :=
    { node := Node.fresh clock, feed := ⟨l, cancelled⟩, sink := { chunk } }
  have hsink : ({ chunk } : Sink).Unlimited := ⟨rfl, hchunk⟩
  have hfollows (l : List LineEvent) (hread : s.Unbroken (Course.ofEvents l).script) :
      (start l false).Follows s (Course.ofEvents l) :=
    Console.follows_ofEvents rfl rfl hsink hread
  refine ⟨?_, ?_, ?_⟩
  · have h : (start events true).Follows s ⟨[], .stopped, events⟩ :=
      Console.follows_of_cancelled rfl rfl
    exact ⟨h.ending, congrArg (·.written.toList) h.sink, congrArg Sink.flushes h.sink,
      congrArg Node.registry h.node, h.unread⟩
  · intro hread
    have h := hfollows events hread.unbroken
    refine ⟨h.ending, ?_, ?_, congrArg Node.registry h.node, h.unread, ?_, ?_, ?_⟩
    · show (start events false).run.2.sink.written.toList = _
      rw [h.sink, Sink.toList_written_advance]
      rfl
    · show (start events false).run.2.sink.flushes = _
      rw [h.sink, Sink.flushes_advance]
      exact Nat.zero_add _
    · intro e
      rw [show (run events false).1 = course.ending from h.ending]
      exact Course.ending_ofEvents_eq_inputFailed events
    · intro hfailed
      rw [show (run events false).1 = course.ending from h.ending] at hfailed ⊢
      obtain hended | hstopped | ⟨e, he⟩ := Course.ending_ofEvents_cases events
      · exact Or.inl hended
      · exact Or.inr hstopped
      · exact absurd he (hfailed e)
    · obtain ⟨taken, hevents, hended | hother⟩ := Course.restsOnTaken_ofEvents events
      · exact ⟨taken, hevents, Or.inl ⟨h.ending.trans hended.1, hended.2⟩⟩
      · refine ⟨taken, hevents, Or.inr ?_⟩
        intro other
        have h' : (start (taken ++ other) false).Follows s { course with unread := other } := by
          rw [← hother]
          refine hfollows (taken ++ other) ?_
          rw [hother]
          exact hread.unbroken
        exact ⟨h'.ending.trans h.ending.symm, h'.sink.trans h.sink.symm, h'.node.trans h.node.symm,
          h'.unread⟩
  · rintro earlier later rfl
    exact Course.countP_ofEvents_le earlier later

/-- A peer is upserted; while an order to stop is on its way, the clock is set; another peer is
upserted, but the registry is not listed. -/
theorem console_run_eq_course_stopped :
    let events : List LineEvent := [.item (.ok "upsert a x"), .cancel, .aside 5,
      .item (.ok "upsert b y"), .item (.ok "list")]
    let run := Console.run
      { node := Node.fresh ⟨0, 0, 0⟩, feed := ⟨events, false⟩, sink := { chunk := some 2 } }
    (some 2 ≠ some 0 ∧ (Session.start ⟨0, 0, 0⟩).Readable (Course.ofEvents events).script) ∧
      run.1 = .stopped ∧ run.2.sink.written.toList = [111, 107, 10, 111, 107, 10] ∧
        run.2.sink.flushes = 2 ∧ run.2.feed.events = [.item (.ok "list")] := by
  intro events run
  have hread : (Session.start ⟨0, 0, 0⟩).Readable (Course.ofEvents events).script := by
    decide +kernel
  obtain ⟨-, h, -⟩ := console_run_eq_course ⟨0, 0, 0⟩ events (some 2) (by decide)
  obtain ⟨hend, hwritten, hflushes, -, hunread, -⟩ := h hread
  refine ⟨⟨by decide, hread⟩, hend, hwritten.trans ?_, hflushes.trans ?_, hunread⟩
  · decide +kernel
  · decide +kernel

end Presence
