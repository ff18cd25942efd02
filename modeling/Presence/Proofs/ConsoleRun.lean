/-
Presence/Proofs/ConsoleRun.lean

A run of the console is a session, and a limited sink only cuts it off.

A script is what a console is told: lines, with settings of the clock between
them.  The same script told to a session gives the replies, one for each line
that is not blank, and their lines one after the other are the transcript.  With
a sink that holds the transcript a console does what the session does
(`run_of_script`).  With any other the script splits at one line,

    before ++ line :: after,

the replies to `before` fit and the one to `line` does not: the console has
written what there was room for, has done what the session does up to this line,
and has not looked at what comes after it (`run_of_not_fits`).

Both are inductions on the script; what one cue does to a console is said before
them, in one lemma for each way in which it can turn out.
-/
import Presence.Console
import Presence.Proofs.SinkWrites
import Presence.Session

namespace Presence

/-! ### Scripts -/

/-- What a console is told. -/
inductive Cue where
  /-- The clock is set, in nanoseconds since 1970. -/
  | setClock (nanos : Int)
  /-- A line comes. -/
  | line (text : String)
  deriving DecidableEq, Repr

namespace Cue

/-- The cue as the console's source delivers it. -/
def event : Cue → Event Int (Except InputError String)
  | setClock t => .aside t
  | line text => .item (.ok text)

/-- The cue as an action of a session. -/
def action : Cue → Action
  | setClock t => .setClock t
  | line text => .line text

end Cue

/-- The reply in a step's answer, if there is one. -/
def Step.reply? (s : Step) : Option Reply :=
  match s.answer with
  | .ok (.reply r) => r
  | _ => none

namespace Session

/-- Carries out a script. -/
def tell (s : Session) (script : List Cue) : List Step × Session := s.run (script.map Cue.action)

/-- The replies to a script. -/
def replies (s : Session) (script : List Cue) : List Reply :=
  (s.tell script).1.filterMap Step.reply?

/-- The replies to a script as lines, one after the other. -/
def transcript (s : Session) (script : List Cue) : List UInt8 :=
  (s.replies script).flatMap fun r => Sink.lineBytes r.text

/-- No cue of the script breaks off. -/
def Unbroken (s : Session) (script : List Cue) : Prop :=
  ∀ step ∈ (s.tell script).1, step.answer.isOk = true

variable (s : Session) (script more : List Cue)

/-- A script is told piece by piece. -/
theorem tell_append :
    s.tell (script ++ more) =
      ((s.tell script).1 ++ ((s.tell script).2.tell more).1, ((s.tell script).2.tell more).2) := by
  induction script generalizing s with
  | nil => rfl
  | cons cue rest ih =>
    have hrest := ih (s.perform cue.action).2
    show ((s.perform cue.action).1 :: ((s.perform cue.action).2.tell (rest ++ more)).1,
      ((s.perform cue.action).2.tell (rest ++ more)).2) = _
    rw [hrest]
    rfl

theorem replies_append :
    s.replies (script ++ more) = s.replies script ++ (s.tell script).2.replies more := by
  rw [replies, tell_append, List.filterMap_append]
  rfl

theorem transcript_append :
    s.transcript (script ++ more) = s.transcript script ++ (s.tell script).2.transcript more := by
  rw [transcript, replies_append, List.flatMap_append]
  rfl

theorem unbroken_append :
    s.Unbroken (script ++ more) ↔ s.Unbroken script ∧ (s.tell script).2.Unbroken more := by
  rw [Unbroken, tell_append]
  exact List.forall_mem_append

variable (cue : Cue)

theorem replies_cons :
    s.replies (cue :: more) = s.replies [cue] ++ (s.tell [cue]).2.replies more :=
  s.replies_append [cue] more

theorem transcript_cons :
    s.transcript (cue :: more) = s.transcript [cue] ++ (s.tell [cue]).2.transcript more :=
  s.transcript_append [cue] more

theorem unbroken_cons :
    s.Unbroken (cue :: more) ↔ s.Unbroken [cue] ∧ (s.tell [cue]).2.Unbroken more :=
  s.unbroken_append [cue] more

variable {s} {text : String}

/-- A line that does not break off has a response, if only an empty one, and this is the reply. -/
theorem Unbroken.exists_response (h : s.Unbroken [.line text]) :
    ∃ r?, (s.node.respond text).result = .ok r? ∧ s.replies [.line text] = r?.toList := by
  have hok : (s.perform (.line text)).1.answer.isOk = true := h _ List.mem_cons_self
  have hanswer : (s.perform (.line text)).1.answer = (s.node.respond text).result.map .reply := rfl
  rw [hanswer] at hok
  rcases hresult : (s.node.respond text).result with f | r?
  · rw [hresult] at hok
    exact absurd hok Bool.false_ne_true
  · have hreply : (s.perform (.line text)).1.reply? = r? := by
      rw [Step.reply?, hanswer, hresult]
      rfl
    refine ⟨r?, rfl, ?_⟩
    show [(s.perform (.line text)).1].filterMap Step.reply? = r?.toList
    rw [List.filterMap_cons, hreply]
    cases r? <;> rfl

end Session

/-! ### One cue -/

namespace Console

variable {c : Console} {later : List (Event Int (Except InputError String))}

theorem run_of_stop {why : ConsoleEnd} {next : Console} (h : c.step = (some why, next)) :
    c.run = (why, next) := by
  rw [run]
  split
  · next h' => simp_all
  · next h' => simp_all

theorem run_of_step {next : Console} (h : c.step = (none, next)) : c.run = next.run := by
  rw [run]
  split
  · next h' => simp_all
  · next h' => simp_all

theorem run_congr {c' : Console} (h : c.step = c'.step) : c.run = c'.run := by
  rcases hstep : c'.step with ⟨- | why, next⟩
  · rw [run_of_step (h.trans hstep), run_of_step hstep]
  · rw [run_of_stop (h.trans hstep), run_of_stop hstep]

/-- The clock is set, and the wait goes on. -/
theorem run_setClock {t : Int} (h : c.feed = ⟨(Cue.setClock t).event :: later, false⟩) :
    c.run = { c with
      node := { c.node with clock := c.node.clock.set t }
      feed := ⟨later, false⟩ : Console }.run := by
  -- a wait takes the setting on its way to the next line
  refine run_congr ?_
  unfold step
  rw [h]
  rfl

/-- A line comes. -/
theorem step_line {text : String} (h : c.feed = ⟨(Cue.line text).event :: later, false⟩) :
    c.step = { c with feed := ⟨later, false⟩ : Console }.handle text := by
  unfold step
  rw [h]
  rfl

/-- The input ends. -/
theorem step_end (h : c.feed = ⟨[], false⟩) :
    c.step = (some .inputEnded, c.logging [.inputClosed]) := by
  unfold step
  rw [h]
  obtain ⟨node, feed, sink, log⟩ := c
  obtain rfl := h
  rfl

/-- The console after the node has responded to a line, before anything is written. -/
def heard (c : Console) (text : String) : Console :=
  { c.logging (c.node.respond text).log with node := (c.node.respond text).node }

theorem handle_eq (c : Console) (text : String) :
    c.handle text = (c.heard text).deliver (c.node.respond text).result := rfl

section

variable {s : Session} {text : String} (hnode : s.node = c.node)
  (hread : s.Unbroken [.line text]) (hchunk : c.sink.chunk ≠ some 0)

include hnode hread hchunk

/-- A line whose reply fits, if it has one: the console does what the session does, writes the
reply and goes on. -/
theorem handle_of_fits (hfits : c.sink.Fits (s.transcript [.line text])) :
    ∃ next, c.handle text = (none, next) ∧ (s.tell [.line text]).2.node = next.node ∧
      next.feed = c.feed ∧
      next.sink = c.sink.advance (s.transcript [.line text]) (s.replies [.line text]).length := by
  obtain ⟨r?, hresult, hreplies⟩ := hread.exists_response
  have htold : (s.tell [.line text]).2.node = (c.heard text).node := by
    show (s.node.respond text).node = (c.node.respond text).node
    rw [hnode]
  rw [hnode] at hresult
  rw [Session.transcript, hreplies] at hfits ⊢
  rw [handle_eq, hresult]
  cases r? with
  | none => exact ⟨c.heard text, rfl, htold, rfl, c.sink.advance_nil.symm⟩
  | some r =>
    rw [Option.toList_some, List.flatMap_singleton] at hfits ⊢
    have hsend : (c.heard text).sink.sendLine r.text =
        (true, c.sink.advance (Sink.lineBytes r.text) 1) := c.sink.sendLine_of_fits hchunk hfits
    refine ⟨{ c.heard text with sink := c.sink.advance (Sink.lineBytes r.text) 1 }, ?_, htold, rfl,
      rfl⟩
    rw [deliver, hsend]

/-- A line whose reply does not fit: the console has carried it out, writes what there is room for
and stops. -/
theorem handle_of_not_fits (hfits : ¬ c.sink.Fits (s.transcript [.line text])) :
    ∃ next, c.handle text = (some .outputClosed, next) ∧
      (s.tell [.line text]).2.node = next.node ∧ next.feed = c.feed ∧
      next.sink = c.sink.advance (c.sink.taken (s.transcript [.line text])) 0 := by
  obtain ⟨r?, hresult, hreplies⟩ := hread.exists_response
  have htold : (s.tell [.line text]).2.node = (c.heard text).node := by
    show (s.node.respond text).node = (c.node.respond text).node
    rw [hnode]
  rw [hnode] at hresult
  rw [Session.transcript, hreplies] at hfits ⊢
  rw [handle_eq, hresult]
  cases r? with
  | none => exact absurd c.sink.fits_nil hfits
  | some r =>
    rw [Option.toList_some, List.flatMap_singleton] at hfits ⊢
    have hsend : (c.heard text).sink.sendLine r.text =
        (false, c.sink.advance (c.sink.taken (Sink.lineBytes r.text)) 0) :=
      c.sink.sendLine_of_not_fits hchunk hfits
    refine ⟨{ c.heard text with sink := c.sink.advance (c.sink.taken (Sink.lineBytes r.text)) 0 },
      ?_, htold, rfl, rfl⟩
    rw [deliver, hsend]

end

/-- A cue whose reply fits, if it has one: the console does what the session does, writes the reply
and goes on with what comes behind the cue. -/
theorem run_of_cue {s : Session} {cue : Cue} (hnode : s.node = c.node)
    (hfeed : c.feed = ⟨cue.event :: later, false⟩) (hread : s.Unbroken [cue])
    (hchunk : c.sink.chunk ≠ some 0) (hfits : c.sink.Fits (s.transcript [cue])) :
    ∃ next : Console, c.run = next.run ∧ (s.tell [cue]).2.node = next.node ∧
      next.feed = ⟨later, false⟩ ∧
      next.sink = c.sink.advance (s.transcript [cue]) (s.replies [cue]).length := by
  cases cue with
  | setClock t =>
    refine ⟨_, run_setClock hfeed, ?_, rfl, c.sink.advance_nil.symm⟩
    rw [← hnode]
    rfl
  | line text =>
    have hnode' : s.node = ({ c with feed := ⟨later, false⟩ } : Console).node := hnode
    obtain ⟨next, hhandle, htold, hleft, hsink⟩ := handle_of_fits hnode' hread hchunk hfits
    exact ⟨next, run_of_step ((step_line hfeed).trans hhandle), htold, hleft, hsink⟩

/-! ### Whole scripts -/

/-- A console whose sink holds the transcript does what the session does, writes the transcript,
and goes on with what comes behind the script. -/
theorem run_of_script (script : List Cue) {s : Session} (hnode : s.node = c.node)
    (hfeed : c.feed = ⟨script.map Cue.event ++ later, false⟩) (hchunk : c.sink.chunk ≠ some 0)
    (hread : s.Unbroken script) (hfits : c.sink.Fits (s.transcript script)) :
    ∃ next : Console, c.run = next.run ∧ (s.tell script).2.node = next.node ∧
      next.feed = ⟨later, false⟩ ∧
      next.sink = c.sink.advance (s.transcript script) (s.replies script).length := by
  induction script generalizing c s with
  | nil => exact ⟨c, rfl, hnode, hfeed, c.sink.advance_nil.symm⟩
  | cons cue rest ih =>
    obtain ⟨hfirst, hrest⟩ := (s.unbroken_cons _ _).1 hread
    rw [s.transcript_cons] at hfits ⊢
    -- the reply fits, and the rest of the transcript fits behind it
    obtain ⟨hfits₁, hfits₂⟩ :=
      (c.sink.fits_append_advance _ _ (s.replies [cue]).length).1 hfits
    obtain ⟨next, hrun, hnode', hfeed', hsink⟩ := run_of_cue hnode hfeed hfirst hchunk hfits₁
    rw [← hsink] at hfits₂
    have hchunk' : next.sink.chunk ≠ some 0 := by
      rw [hsink]
      exact hchunk
    obtain ⟨last, hlast, hnode'', hfeed'', hwritten⟩ := ih hnode' hfeed' hchunk' hrest hfits₂
    refine ⟨last, hrun.trans hlast, hnode'', hfeed'', ?_⟩
    rw [hwritten, hsink, Sink.advance_advance, s.replies_cons rest, List.length_append]

/-- A console that is told a script and nothing else ends with its input. -/
theorem run_of_fits (script : List Cue) {s : Session} (hnode : s.node = c.node)
    (hfeed : c.feed = ⟨script.map Cue.event, false⟩) (hchunk : c.sink.chunk ≠ some 0)
    (hread : s.Unbroken script) (hfits : c.sink.Fits (s.transcript script)) :
    c.run.1 = .inputEnded ∧ c.run.2.node = (s.tell script).2.node ∧
      c.run.2.sink = c.sink.advance (s.transcript script) (s.replies script).length ∧
      c.run.2.feed.events = [] := by
  rw [← List.append_nil (script.map Cue.event)] at hfeed
  obtain ⟨next, hrun, hnode', hfeed', hsink⟩ := run_of_script script hnode hfeed hchunk hread hfits
  rw [hrun, run_of_stop (step_end hfeed')]
  exact ⟨rfl, hnode'.symm, hsink, congrArg Feed.events hfeed'⟩

/-- A console whose sink does not hold the transcript stops at the first line whose reply does not
fit; the sink has taken what there was room for, and nothing behind this line has been looked at. -/
theorem run_of_not_fits (script : List Cue) {s : Session} (hnode : s.node = c.node)
    (hfeed : c.feed = ⟨script.map Cue.event, false⟩) (hchunk : c.sink.chunk ≠ some 0)
    (hread : s.Unbroken script) (hfits : ¬ c.sink.Fits (s.transcript script)) :
    ∃ before text after, script = before ++ .line text :: after ∧
      c.sink.Fits (s.transcript before) ∧
      ¬ c.sink.Fits (s.transcript (before ++ [.line text])) ∧
      c.run.1 = .outputClosed ∧ c.run.2.node = (s.tell (before ++ [.line text])).2.node ∧
      c.run.2.sink =
        c.sink.advance (c.sink.taken (s.transcript script)) (s.replies before).length ∧
      c.run.2.feed = ⟨after.map Cue.event, false⟩ := by
  induction script generalizing c s with
  | nil => exact absurd c.sink.fits_nil hfits
  | cons cue rest ih =>
    obtain ⟨hfirst, hrest⟩ := (s.unbroken_cons _ _).1 hread
    rw [s.transcript_cons] at hfits ⊢
    by_cases hfits₁ : c.sink.Fits (s.transcript [cue])
    · -- the line comes later, and the sink has less room for it then
      obtain ⟨next, hrun, hnode', hfeed', hsink⟩ := run_of_cue hnode hfeed hfirst hchunk hfits₁
      have hlater : ∀ more, next.sink.Fits ((s.tell [cue]).2.transcript more) ↔
          c.sink.Fits (s.transcript (cue :: more)) := by
        intro more
        rw [s.transcript_cons, c.sink.fits_append_advance _ _ (s.replies [cue]).length, hsink]
        exact (and_iff_right hfits₁).symm
      have hfits₂ : ¬ next.sink.Fits ((s.tell [cue]).2.transcript rest) := by
        rw [hlater, s.transcript_cons]
        exact hfits
      have hchunk' : next.sink.chunk ≠ some 0 := by
        rw [hsink]
        exact hchunk
      obtain ⟨before, text, after, hscript, hbefore, hline, hend, hlast, hwritten, hleft⟩ :=
        ih hnode' hfeed' hchunk' hrest hfits₂
      refine ⟨cue :: before, text, after, by rw [hscript]; rfl, (hlater _).1 hbefore,
        ?_, ?_, ?_, ?_, ?_⟩
      · exact fun h => hline ((hlater _).2 h)
      · rw [hrun]
        exact hend
      · rw [hrun]
        exact hlast
      · rw [hrun, hwritten, hsink, Sink.advance_advance, s.replies_cons before, List.length_append,
          c.sink.taken_append_advance _ _ hfits₁ (s.replies [cue]).length]
      · rw [hrun]
        exact hleft
    · -- this is the line
      obtain ⟨text, rfl⟩ : ∃ text, cue = .line text := by
        cases cue with
        | setClock t => exact absurd c.sink.fits_nil hfits₁
        | line text => exact ⟨text, rfl⟩
      have hnode' : s.node =
          ({ c with feed := ⟨rest.map Cue.event, false⟩ } : Console).node := hnode
      obtain ⟨next, hhandle, htold, hleft, hsink⟩ := handle_of_not_fits hnode' hfirst hchunk hfits₁
      rw [run_of_stop ((step_line hfeed).trans hhandle)]
      refine ⟨[], text, rest, rfl, c.sink.fits_nil, hfits₁, rfl, htold.symm, ?_, hleft⟩
      rw [hsink, c.sink.taken_append_of_not_fits _ _ hfits₁]
      rfl

end Console

/-- **A console is the fold of its lines, and a limited sink only cuts it off.**  If the sink holds
the transcript, the console writes it, flushes after every reply, and ends with the input and the
session's registry.  If not, it writes the part of the transcript for which there is room, flushes
after the replies that fit, and stops behind the first line whose reply does not fit, with the
registry that the session has then.  The size of the pieces that the sink takes does not matter. -/
theorem console_run_eq_session (clock : Clock) (script : List Cue)
    (hread : (Session.start clock).Unbroken script) (room chunk : Option Nat)
    (hchunk : chunk ≠ some 0) :
    let s := Session.start clock
    let run := Console.run
      { node := Node.fresh clock, feed := ⟨script.map Cue.event, false⟩, sink := { room, chunk } }
    ((∀ limit ∈ room, (s.transcript script).length ≤ limit) →
      run.1 = .inputEnded ∧ run.2.sink.written.toList = s.transcript script ∧
        run.2.sink.flushes = (s.replies script).length ∧
        run.2.node.registry = (s.tell script).2.node.registry ∧ run.2.feed.events = []) ∧
      ∀ limit ∈ room, limit < (s.transcript script).length →
        ∃ before text after, script = before ++ .line text :: after ∧
          (s.transcript before).length ≤ limit ∧
          limit < (s.transcript (before ++ [.line text])).length ∧
          run.1 = .outputClosed ∧
          run.2.sink.written.toList = (s.transcript script).take limit ∧
          run.2.sink.flushes = (s.replies before).length ∧
          run.2.node.registry = (s.tell (before ++ [.line text])).2.node.registry ∧
          run.2.feed.events = after.map Cue.event := by
  intro s run
  let c : Console :=
    { node := Node.fresh clock, feed := ⟨script.map Cue.event, false⟩, sink := { room, chunk } }
  have hnode : s.node = c.node := rfl
  have hempty : c.sink.written.toList = [] := rfl
  have hnever : c.sink.flushes = 0 := rfl
  refine ⟨?_, ?_⟩
  · intro hfits
    obtain ⟨hend, hlast, hsink, hleft⟩ := Console.run_of_fits script hnode rfl hchunk hread hfits
    refine ⟨hend, ?_, ?_, ?_, hleft⟩
    · show c.run.2.sink.written.toList = _
      rw [hsink, Sink.toList_written_advance, hempty, List.nil_append]
    · show c.run.2.sink.flushes = _
      rw [hsink, Sink.flushes_advance, hnever, Nat.zero_add]
    · exact congrArg Node.registry hlast
  · intro limit hlimit hlong
    have hfits : ¬ c.sink.Fits (s.transcript script) := by
      intro hfits
      exact Nat.not_lt.2 (hfits limit hlimit) hlong
    obtain ⟨before, text, after, hscript, hbefore, hline, hend, hlast, hsink, hleft⟩ :=
      Console.run_of_not_fits script hnode rfl hchunk hread hfits
    have hroom : c.sink.room = some limit := hlimit
    refine ⟨before, text, after, hscript, hbefore limit hlimit, ?_, hend, ?_, ?_, ?_, ?_⟩
    · -- the room is the only limit that there is
      apply Nat.not_le.1
      intro hle
      apply hline
      intro room' hroom'
      obtain rfl : limit = room' := Option.some.inj (hroom.symm.trans hroom')
      exact hle
    · show c.run.2.sink.written.toList = _
      rw [hsink, Sink.toList_written_advance, hempty, List.nil_append, Sink.taken, hroom]
    · show c.run.2.sink.flushes = _
      rw [hsink, Sink.flushes_advance, hnever, Nat.zero_add]
    · exact congrArg Node.registry hlast
    · exact congrArg Feed.events hleft

/-- A peer is upserted and listed; there is room for the first reply and one byte of the second,
and the sink takes two bytes at a time. -/
theorem console_run_eq_session_cut_short :
    (Session.start ⟨0, 0, 0⟩).Unbroken [.line "upsert a x", .setClock 5, .line "list"] ∧
      let run := Console.run
        { node := Node.fresh ⟨0, 0, 0⟩
          feed := ⟨[.item (.ok "upsert a x"), .aside 5, .item (.ok "list")], false⟩
          sink := { room := some 4, chunk := some 2 } }
      run.1 = .outputClosed ∧ run.2.sink.written.toList = [111, 107, 10, 123] := by
  have hread : (Session.start ⟨0, 0, 0⟩).Unbroken
      [.line "upsert a x", .setClock 5, .line "list"] := by
    unfold Session.Unbroken
    decide +kernel
  obtain ⟨-, h⟩ := console_run_eq_session ⟨0, 0, 0⟩ _ hread (some 4) (some 2) (by decide)
  obtain ⟨before, text, after, -, -, -, hend, hwritten, -⟩ := h 4 rfl (by decide +kernel)
  refine ⟨hread, hend, hwritten.trans ?_⟩
  decide +kernel

end Presence
