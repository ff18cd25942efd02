/-
Presence/Proofs/Framing.lean

One answer for each command, and one line for each answer.

What the console tells the user is never empty and stays on one line
(`isAnswer_respond`), whatever is in the registry and whatever the line is.  There
are three reasons for this, by where a piece of the answer comes from:

    words of the line          have no blanks in them, so no line ends
    contents and ids           are inside of JSON strings, where line ends are
                               escaped
    all the rest               is fixed

So the output of a console falls into lines that are its answers
(`lines_flatMap_lineBytes`), one for each line of the input that is not blank
(`Session.length_replies`) and in the same order (`Session.replies_getElem?`).

Main result: `one_answer_for_each_command`.
-/
import Presence.Proofs.ConsoleCourse
import Presence.Proofs.FrontEnd
import Presence.Proofs.LineReader

namespace Presence

open Text

/-! ### Answers -/

namespace Text

variable {s t : List Char} {c : Char}

/-- There is no line end among the characters. -/
def OneLine (s : List Char) : Prop := ∀ c ∈ s, isLineEnd c = false

instance (s : List Char) : Decidable (OneLine s) := List.decidableBAll _ s

theorem OneLine.append (hs : OneLine s) (ht : OneLine t) : OneLine (s ++ t) :=
  List.forall_mem_append.2 ⟨hs, ht⟩

theorem OneLine.cons (hc : isLineEnd c = false) (ht : OneLine t) : OneLine (c :: t) :=
  List.forall_mem_cons.2 ⟨hc, ht⟩

theorem OneLine.lineFeed_not_mem (h : OneLine s) : '\n' ∉ s := by
  intro hmem
  exact absurd (h '\n' hmem) (by decide)

theorem OneLine.return_not_mem (h : OneLine s) : '\r' ∉ s := by
  intro hmem
  exact absurd (h '\r' hmem) (by decide)

theorem BlankFree.oneLine (h : BlankFree s) : OneLine s :=
  fun c hc => isLineEnd_of_not_isBlank (h c hc)

/-- One line that is not empty. -/
structure IsAnswer (s : List Char) : Prop where
  /-- There is a character. -/
  nonempty : s ≠ []
  /-- None of them is a line end. -/
  oneLine : OneLine s

end Text

namespace Json

theorem oneLine_stringChar (c : Char) : OneLine (stringChar c) := by
  have hdigit : ∀ d < 16, isLineEnd (Nat.digitChar d) = false := by decide
  unfold stringChar
  -- the seven characters that have a letter of their own
  iterate 7
    split
    · decide
  split
  · next hcontrol =>
    have hhigh : c.toNat / 16 < 16 := by omega
    have hlow : c.toNat % 16 < 16 := by omega
    have hfront : OneLine ['\\', 'u', '0', '0'] := by decide
    exact hfront.append (.cons (hdigit _ hhigh) (.cons (hdigit _ hlow) (by decide)))
  · next hfeed hreturn _ _ =>
    refine .cons ?_ (by decide)
    simp [isLineEnd, hfeed, hreturn]

/-- Line ends are escaped in a string. -/
theorem oneLine_string (text : List Char) : OneLine (string text) := by
  have hchars : OneLine (text.flatMap stringChar) := by
    intro c hc
    obtain ⟨d, -, hd⟩ := List.mem_flatMap.1 hc
    exact oneLine_stringChar d c hd
  exact (OneLine.cons (by decide) hchars).append (by decide)

theorem oneLine_commaSeparated {l : List (List Char)} (h : ∀ x ∈ l, OneLine x) :
    OneLine (commaSeparated l) := by
  induction l using commaSeparated.induct with
  | case1 => exact fun c hc => nomatch hc
  | case2 x => exact h x List.mem_cons_self
  | case3 x y rest ih =>
    obtain ⟨hx, hrest⟩ := List.forall_mem_cons.1 h
    exact hx.append (.cons (by decide) (ih hrest))

theorem isAnswer_object {members : List (List Char × List Char)}
    (h : ∀ m ∈ members, OneLine m.2) : IsAnswer (object members) := by
  refine ⟨List.cons_ne_nil _ _, ?_⟩
  have hmembers : OneLine (commaSeparated (members.map fun m => string m.1 ++ ':' :: m.2)) := by
    apply oneLine_commaSeparated
    intro x hx
    obtain ⟨m, hm, rfl⟩ := List.mem_map.1 hx
    exact (oneLine_string m.1).append (.cons (by decide) (h m hm))
  exact (OneLine.cons (by decide) hmembers).append (by decide)

theorem isAnswer_sighting (s : Sighting) : IsAnswer (sighting s) := by
  apply isAnswer_object
  intro m hm
  simp only [List.mem_cons, List.not_mem_nil, or_false] at hm
  rcases hm with rfl | rfl <;> exact oneLine_string _

theorem isAnswer_registry (r : Registry) : IsAnswer (registry r) := by
  apply isAnswer_object
  intro m hm
  obtain ⟨e, -, rfl⟩ := List.mem_map.1 hm
  exact (isAnswer_sighting e.2).oneLine

theorem isAnswer_stringArray (elements : List String) : IsAnswer (stringArray elements) := by
  refine ⟨List.cons_ne_nil _ _, ?_⟩
  have helements : OneLine (commaSeparated (elements.map fun e => string e.toList)) := by
    apply oneLine_commaSeparated
    intro x hx
    obtain ⟨e, -, rfl⟩ := List.mem_map.1 hx
    exact oneLine_string e.toList
  exact (OneLine.cons (by decide) helements).append (by decide)

end Json

/-! ### Replies -/

theorem CommandError.NamesWord.oneLine_message {e : CommandError} (h : e.NamesWord) :
    OneLine e.message.toList := by
  have hquoted {front word back : String} (hfront : OneLine front.toList) (hword : IsWord word.toList)
      (hback : OneLine back.toList) : OneLine (front ++ word ++ back).toList := by
    rw [String.toList_append, String.toList_append]
    exact (hfront.append hword.blankFree.oneLine).append hback
  cases e with
  | unknownCommand word => exact hquoted (by decide) h (by decide)
  | missingArgument verb => cases verb <;> decide
  | invalidAge word => exact hquoted (by decide) h (by decide)
  | unexpectedArgument word => exact hquoted (by decide) h (by decide)

/-- A word behind a fixed beginning. -/
theorem isAnswer_append {front text : String} (hne : front.toList ≠ [])
    (hfront : OneLine front.toList) (htext : OneLine text.toList) :
    IsAnswer (front ++ text).toList := by
  rw [String.toList_append]
  exact ⟨List.append_ne_nil_of_left_ne_nil hne _, hfront.append htext⟩

/-- The answer to a command's operation stays on a line. -/
theorem Command.isAnswer_rendering {c : Command} (h : c.Writable) (answer : Answer) :
    IsAnswer (c.rendering answer).toList := by
  have hunknown {id : String} (hid : IsWord id.toList) : IsAnswer ("unknown peer " ++ id).toList :=
    isAnswer_append (by decide) (by decide) hid.blankFree.oneLine
  unfold rendering
  split
  · exact hunknown h
  · exact hunknown h
  · exact hunknown h
  · rw [String.toList_ofList]
    exact Json.isAnswer_sighting _
  · rw [String.toList_ofList]
    exact Json.isAnswer_registry _
  · rw [String.toList_ofList]
    exact Json.isAnswer_stringArray _
  · exact ⟨by decide, by decide⟩

namespace Node

variable {n : Node} {line : String}

/-- **What the console tells the user is one line that is not empty.** -/
theorem isAnswer_respond {r : Reply} (h : (n.respond line).result = .ok (some r)) :
    IsAnswer r.text.toList := by
  unfold respond at h
  split at h
  · next c hparse =>
    have htold := c.told_run ⟨n, Registry.empty⟩
    rw [Outcome.result_map] at h
    rcases hrun : (c.run n).result with f | r' <;> rw [hrun] at h htold
    · cases h
    · obtain rfl := Option.some.inj (Except.ok.inj h)
      rcases hdirect : (Session.outcome ⟨n, Registry.empty⟩ c.direct).result with f | answer <;>
        rw [hdirect] at htold
      · cases htold
      · have htext : r'.text = c.rendering answer := Except.ok.inj htold
        rw [htext]
        exact Command.isAnswer_rendering (Command.writable_of_parse hparse) answer
  · cases h
  · next e hparse =>
    obtain rfl := Option.some.inj (Except.ok.inj h)
    exact isAnswer_append (by decide) (by decide)
      (Command.namesWord_of_parse hparse).oneLine_message

/-- Only a line of blanks is not answered. -/
theorem result_respond_eq_none_iff :
    (n.respond line).result = .ok none ↔ ∀ c ∈ line.toList, isBlank c = true := by
  rw [← Command.parse_eq_none_iff]
  unfold respond
  rcases hparse : Command.parse line with e | - | c
  · exact iff_of_false (by simp) (by simp)
  · exact iff_of_true rfl rfl
  · refine iff_of_false ?_ (by simp)
    rw [Outcome.result_map]
    rcases (c.run n).result with f | r <;> simp [Except.map]

end Node

/-! ### The answers to a script -/

/-- The cue is a line that is not blank. -/
def Cue.asks : Cue → Bool
  | line text => !text.toList.all isBlank
  | setClock _ => false

namespace Session

variable {s : Session} {script : List Cue}

/-- A line has one answer if it is not blank, and none otherwise. -/
theorem length_replies_line {text : String} (h : s.Unbroken [.line text]) :
    (s.replies [.line text]).length = if (Cue.line text).asks then 1 else 0 := by
  obtain ⟨r?, hresult, hreplies⟩ := h.exists_response
  have hnone : r? = none ↔ ∀ c ∈ text.toList, isBlank c = true := by
    rw [← Node.result_respond_eq_none_iff (n := s.node), hresult, Except.ok.injEq]
  rw [hreplies]
  rcases r? with - | r
  · have hblank : (Cue.line text).asks = false := by simpa [Cue.asks] using hnone.1 rfl
    rw [hblank]
    rfl
  · have hasks : (Cue.line text).asks = true := by
      simpa [Cue.asks] using mt hnone.2 (Option.some_ne_none r)
    rw [hasks]
    rfl

/-- There is one reply for each line that is not blank. -/
theorem length_replies (h : s.Unbroken script) :
    (s.replies script).length = script.countP Cue.asks := by
  induction script generalizing s with
  | nil => rfl
  | cons cue rest ih =>
    obtain ⟨hfirst, hrest⟩ := (s.unbroken_cons rest cue).1 h
    rw [s.replies_cons rest, List.length_append, ih hrest, List.countP_cons, Nat.add_comm]
    congr 1
    cases cue with
    | setClock t => rfl
    | line text => exact length_replies_line hfirst

/-- Every reply is the response of a node to a line. -/
theorem exists_respond_of_mem_replies (h : s.Unbroken script) :
    ∀ r ∈ s.replies script, ∃ n line, (Node.respond line n).result = .ok (some r) := by
  induction script generalizing s with
  | nil => exact fun r hr => nomatch hr
  | cons cue rest ih =>
    obtain ⟨hfirst, hrest⟩ := (s.unbroken_cons rest cue).1 h
    rw [s.replies_cons rest]
    refine List.forall_mem_append.2 ⟨?_, ih hrest⟩
    cases cue with
    | setClock t => exact fun r hr => nomatch hr
    | line text =>
      obtain ⟨r?, hresult, hreplies⟩ := hfirst.exists_response
      rw [hreplies]
      intro r hr
      obtain rfl := Option.mem_toList.1 hr
      exact ⟨s.node, text, hresult⟩

/-- The reply to a line comes behind those to the lines before. -/
theorem replies_getElem? {before after : List Cue} {text : String}
    (h : s.Unbroken (before ++ .line text :: after)) (hasks : (Cue.line text).asks = true) :
    ∃ r, ((s.tell before).2.node.respond text).result = .ok (some r) ∧
      (s.replies (before ++ .line text :: after))[before.countP Cue.asks]? = some r := by
  obtain ⟨hbefore, hafter⟩ := (s.unbroken_append _ _).1 h
  obtain ⟨r?, hresult, hreplies⟩ :=
    ((Session.unbroken_cons _ after (.line text)).1 hafter).1.exists_response
  have hlength := length_replies_line ((Session.unbroken_cons _ after (.line text)).1 hafter).1
  rw [hreplies, if_pos hasks] at hlength
  rcases r? with - | r
  · cases hlength
  · refine ⟨r, hresult, ?_⟩
    rw [s.replies_append, Session.replies_cons _ after, hreplies, ← length_replies hbefore,
      List.getElem?_append_right (Nat.le_refl _), Nat.sub_self]
    rfl

end Session

/-! ### Answers as lines -/

/-- Answers that are written one after the other, each with a line feed, are read back one by
one. -/
theorem lines_flatMap_lineBytes {answers : List String} (h : ∀ a ∈ answers, IsAnswer a.toList) :
    Text.lines (answers.flatMap Sink.lineBytes) = answers.map .ok := by
  have hbytes : answers.flatMap Sink.lineBytes =
      terminated lineFeed ((answers.map String.toList).map encode) ++ [] := by
    rw [terminated, List.map_map, List.flatMap_map, List.append_nil]
    refine congrArg (answers.flatMap ·) (funext fun a => ?_)
    rw [Sink.lineBytes, toList_toUTF8]
    rfl
  have hfeed : ∀ a ∈ answers.map String.toList, '\n' ∉ a := by
    intro a ha
    obtain ⟨text, htext, rfl⟩ := List.mem_map.1 ha
    exact (h text htext).oneLine.lineFeed_not_mem
  have hreturn : ∀ a ∈ answers, withoutReturn a.toList = a.toList := by
    intro a ha
    exact if_neg fun hlast => (h a ha).oneLine.return_not_mem (List.mem_of_getLast? hlast)
  rw [hbytes, lines_terminated_append hfeed, List.map_map, List.map_map]
  refine (List.append_nil _).trans (List.map_congr_left fun a ha => ?_)
  show Except.ok (String.ofList (withoutReturn a.toList)) = .ok a
  rw [hreturn a ha, String.ofList_toList]

/-! ### What is taken -/

namespace Course

/-- The script of the course that `course` gives to `events` is made of the events that it takes. -/
def ScriptIsTaken (course : List LineEvent → Course) (events : List LineEvent) : Prop :=
  ∃ taken, events = taken ++ (course events).unread ∧ Cue.ofEvents taken = (course events).script

theorem ScriptIsTaken.cons {course next : List LineEvent → Course} {e : LineEvent}
    {rest : List LineEvent} (hnext : ∀ l, course (e :: l) = (next l).told (Cue.ofEvents [e]))
    (h : ScriptIsTaken next rest) : ScriptIsTaken course (e :: rest) := by
  obtain ⟨taken, hrest, hscript⟩ := h
  refine ⟨e :: taken, ?_, ?_⟩
  · rw [hnext, List.cons_append]
    exact congrArg (e :: ·) hrest
  · rw [hnext, told, ← hscript]
    exact List.filterMap_append (l := [e])

variable (events : List LineEvent)

theorem scriptIsTaken_afterCancel : ScriptIsTaken afterCancel events := by
  induction events with
  | nil => exact ⟨[], rfl, rfl⟩
  | cons e rest ih =>
    rcases e with (e | text) | t | - | -
    · exact ⟨[_], rfl, rfl⟩
    · exact ⟨[_], rfl, rfl⟩
    · exact ih.cons fun l => afterCancel_aside l t
    · exact ih.cons afterCancel_cancel
    · exact ⟨[_], rfl, rfl⟩

theorem scriptIsTaken_ofEvents : ScriptIsTaken ofEvents events := by
  induction events with
  | nil => exact ⟨[], rfl, rfl⟩
  | cons e rest ih =>
    obtain ⟨cue, rfl⟩ | ⟨f, rfl⟩ | rfl | rfl := Cue.event_cases e
    · refine ih.cons fun l => ?_
      rw [ofEvents_event, Cue.ofEvents_event]
      rfl
    · exact ⟨[_], rfl, rfl⟩
    · exact (scriptIsTaken_afterCancel rest).cons ofEvents_cancel
    · exact ⟨[_], rfl, rfl⟩

/-- The course of a feed: under the order to stop nothing is taken. -/
def ofFeed : LineFeed → Course
  | ⟨events, true⟩ => ⟨[], .stopped, events⟩
  | ⟨events, false⟩ => ofEvents events

theorem exists_taken_ofFeed (feed : LineFeed) :
    ∃ taken, feed.events = taken ++ (ofFeed feed).unread ∧
      Cue.ofEvents taken = (ofFeed feed).script := by
  obtain ⟨events, - | -⟩ := feed
  · exact scriptIsTaken_ofEvents events
  · exact ⟨[], rfl, rfl⟩

end Course

theorem Console.follows_ofFeed {c : Console} {s : Session} (hnode : s.node = c.node)
    (hsink : c.sink.Unlimited) (hread : s.Unbroken (Course.ofFeed c.feed).script) :
    c.Follows s (Course.ofFeed c.feed) := by
  rcases hfeed : c.feed with ⟨events, - | -⟩
  · rw [hfeed] at hread
    exact follows_ofEvents hnode hfeed hsink hread
  · exact follows_of_cancelled hnode hfeed

/-- **One answer line for each command.**  What the console tells the user is not empty and has no
line end in it.  So with a sink that is not limited and a clock that can be read, whatever the
source delivers, the output is made of as many lines as there are lines among the events taken that
are not blank, each of them flushed by itself; and the answer to such a line stands at the line's
place. -/
theorem one_answer_for_each_command :
    (∀ (n : Node) (line : String) (r : Reply), (n.respond line).result = .ok (some r) →
      r.text ≠ "" ∧ '\n' ∉ r.text.toList ∧ '\r' ∉ r.text.toList) ∧
    ∀ (s : Session) (feed : LineFeed) (chunk : Option Nat), chunk ≠ some 0 →
      let script := (Course.ofFeed feed).script
      let run := Console.run { node := s.node, feed, sink := { chunk } }
      s.Readable script →
        (∃ taken, feed.events = taken ++ run.2.feed.events ∧ Cue.ofEvents taken = script) ∧
        ∃ answers : List String,
          run.2.sink.written.toList = answers.flatMap Sink.lineBytes ∧
          Text.lines run.2.sink.written.toList = answers.map .ok ∧
          answers.length = script.countP Cue.asks ∧
          run.2.sink.flushes = answers.length ∧
          ∀ before text after, script = before ++ .line text :: after →
            (∃ c ∈ text.toList, isBlank c = false) →
            ∃ r, ((s.tell before).2.node.respond text).result = .ok (some r) ∧
              answers[before.countP Cue.asks]? = some r.text := by
  refine ⟨?_, ?_⟩
  · intro n line r h
    obtain ⟨hne, hline⟩ := Node.isAnswer_respond h
    refine ⟨?_, hline.lineFeed_not_mem, hline.return_not_mem⟩
    intro hempty
    rw [hempty] at hne
    exact hne rfl
  · intro s feed chunk hchunk script run hread
    let c : Console := { node := s.node, feed, sink := { chunk } }
    have hfollows : c.Follows s (Course.ofFeed feed) :=
      Console.follows_ofFeed rfl ⟨rfl, hchunk⟩ hread.unbroken
    have hwritten : c.run.2.sink.written.toList =
        ((s.replies script).map Reply.text).flatMap Sink.lineBytes := by
      rw [hfollows.sink, Sink.toList_written_advance, List.flatMap_map]
      rfl
    have hanswers : ∀ a ∈ (s.replies script).map Reply.text, IsAnswer a.toList := by
      intro a ha
      obtain ⟨r, hr, rfl⟩ := List.mem_map.1 ha
      obtain ⟨n, line, hrespond⟩ := Session.exists_respond_of_mem_replies hread.unbroken r hr
      exact Node.isAnswer_respond hrespond
    have hflushes : c.run.2.sink.flushes = (s.replies script).length := by
      rw [hfollows.sink, Sink.flushes_advance]
      exact Nat.zero_add _
    refine ⟨?_, (s.replies script).map Reply.text, hwritten, ?_, ?_, ?_, ?_⟩
    · show ∃ taken, feed.events = taken ++ c.run.2.feed.events ∧ _
      rw [hfollows.unread]
      exact Course.exists_taken_ofFeed feed
    · show Text.lines c.run.2.sink.written.toList = _
      rw [hwritten]
      exact lines_flatMap_lineBytes hanswers
    · rw [List.length_map]
      exact Session.length_replies hread.unbroken
    · rw [List.length_map]
      exact hflushes
    · intro before text after hscript htext
      have hasks : (Cue.line text).asks = true := by simpa [Cue.asks] using htext
      have hbroken := hread.unbroken
      rw [hscript] at hbroken
      obtain ⟨r, hresult, hplace⟩ := Session.replies_getElem? hbroken hasks
      refine ⟨r, hresult, ?_⟩
      rw [hscript, List.getElem?_map, hplace]
      rfl

/-- A line of blanks, a line with a line feed inside of it, and, behind the order to stop, one more
line; the sink takes one byte at a time. -/
theorem one_answer_for_each_command_within_lines :
    let events : List LineEvent := [.item (.ok " \r"), .item (.ok "get a\nb"), .cancel,
      .item (.ok "list"), .item (.ok "list")]
    let s := Session.start ⟨0, 0, 0⟩
    let run := Console.run { node := s.node, feed := ⟨events, false⟩, sink := { chunk := some 1 } }
    (some 1 ≠ some 0 ∧ s.Readable (Course.ofFeed ⟨events, false⟩).script) ∧
      run.2.sink.flushes = 2 ∧
      ∃ rest, Text.lines run.2.sink.written.toList = .ok "error: unexpected argument 'b'" :: rest := by
  intro events s run
  have hread : s.Readable (Course.ofFeed ⟨events, false⟩).script := by decide +kernel
  obtain ⟨-, h⟩ := one_answer_for_each_command
  obtain ⟨-, answers, -, hlines, hlength, hflushes, hplaces⟩ :=
    h s ⟨events, false⟩ (some 1) (by decide) hread
  refine ⟨⟨by decide, hread⟩, hflushes.trans (hlength.trans ?_), ?_⟩
  · decide +kernel
  · obtain ⟨r, hresult, hanswer⟩ := hplaces [.line " \r"] "get a\nb" [.line "list"] rfl
      ⟨'g', by decide, by decide⟩
    have hreply : r = .rejected (.unexpectedArgument "b") :=
      Option.some.inj (Except.ok.inj (hresult.symm.trans rfl))
    have hplace : List.countP Cue.asks [.line " \r"] = 0 := by decide
    rw [hplace, hreply] at hanswer
    obtain ⟨rest, rfl⟩ : ∃ rest, answers = "error: unexpected argument 'b'" :: rest := by
      rcases answers with - | ⟨a, rest⟩
      · cases hanswer
      · exact ⟨rest, congrArg (· :: rest) ((Option.some.inj hanswer).trans (by decide))⟩
    exact ⟨_, hlines⟩

end Presence
