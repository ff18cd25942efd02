/-
Presence/Proofs/FrontEnd.lean

The console is a front end of the registry and nothing more.

Each command stands for one operation on the registry (`Command.direct`), and what
the user is told is this operation's answer in words (`Command.rendering`):

    upsert, touch, remove      ok
    touch, remove, get         unknown peer, if it is not tracked
    get, list, prune           JSON

A command that is carried out leaves the node that the operation leaves
(`Command.node_run`) and tells what the operation answers (`Command.told_run`).  A
line that holds no command leaves everything as it is.  So a run of lines is the
run of the operations that they stand for (`Session.run_lines`), and conversely any
run of operations can be had by writing each one as a line.

Main result: `front_end_faithful`.
-/
import Presence.Proofs.CommandForms
import Presence.Proofs.Effect

namespace Presence

/-- What the user is told at a step: nothing, or one line. -/
def Step.told (s : Step) : Except Fault (Option String) :=
  s.answer.map fun
    | .reply r? => r?.map Reply.text
    | _ => none

/-! ### Commands and operations -/

namespace Command

/-- The operation that a command stands for. -/
def direct : Command → Action
  | upsert id content => .upsert id content
  | touch id => .touch id
  | remove id => .remove id
  | get id => .get id
  | list => .snapshot
  | prune maxAge => .sweep maxAge

/-- The answer to a command's operation, as the user is told it. -/
def rendering (c : Command) (answer : Answer) : String :=
  match c, answer with
  | touch id, .flag false => "unknown peer " ++ id
  | remove id, .sighting none => "unknown peer " ++ id
  | get id, .sighting none => "unknown peer " ++ id
  | get _, .sighting (some s) => String.ofList (Json.sighting s)
  | list, .peers r => String.ofList (Json.registry r)
  | prune _, .ids l => String.ofList (Json.stringArray l)
  | _, _ => "ok"

/-- The command that a line holds, if it holds one. -/
def ofLine? (line : String) : Option Command :=
  match parse line with
  | .ok c? => c?
  | .error _ => none

variable {c : Command} {line : String} (s : Session)

theorem direct_ne_hold : c.direct ≠ .hold := by
  cases c <;> exact Action.noConfusion

theorem parse_of_ofLine? (h : ofLine? line = some c) : parse line = .ok (some c) := by
  unfold ofLine? at h
  split at h
  · next c? hparse =>
    rw [hparse, h]
  · cases h

theorem ofLine?_written (h : c.Writable) : ofLine? c.written = some c := by
  rw [ofLine?, parse_written h]

/-! ### One command -/

variable (c)

theorem node_run : (c.run s.node).node = (s.outcome c.direct).node := by
  cases c with
  | upsert id content => rfl
  | touch id => rfl
  | remove id => rfl
  | get id =>
    rw [run]
    split <;> rfl
  | list => rfl
  | prune maxAge =>
    show (((s.node.dropOlderThan maxAge).logging _).map Reply.pruned).node =
      ((s.node.sweep maxAge).map Answer.ids).node
    rw [Outcome.node_map, Outcome.node_logging, Outcome.node_map, Node.node_sweep]

/-- A command that breaks off is one whose operation breaks off. -/
theorem told_run : (c.run s.node).result.map Reply.text =
    (s.outcome c.direct).result.map c.rendering := by
  cases c with
  | upsert id content =>
    show ((s.node.upsert id content).result.map _).map Reply.text =
      ((s.node.upsert id content).result.map _).map _
    rcases (s.node.upsert id content).result with f | u <;> rfl
  | touch id =>
    show ((s.node.touch id).result.map _).map Reply.text = ((s.node.touch id).result.map _).map _
    rcases (s.node.touch id).result with f | - | - <;> rfl
  | remove id =>
    show Except.ok _ = Except.ok _
    rcases s.node.peers.get? id with - | known <;> rfl
  | get id =>
    rw [run]
    show _ = Except.ok ((get id).rendering (.sighting (s.node.peers.get? id)))
    rcases s.node.peers.get? id with - | known <;> rfl
  | list => rfl
  | prune maxAge =>
    show (((s.node.dropOlderThan maxAge).logging _).map Reply.pruned).result.map Reply.text =
      ((s.node.sweep maxAge).map Answer.ids).result.map _
    rw [Outcome.result_map, Outcome.result_logging, Outcome.result_map, Node.result_sweep]
    rcases (s.node.dropOlderThan maxAge).result with f | ids <;> rfl

end Command

namespace Session

open Command

variable {c : Command} {line : String} (s : Session)

/-! ### One line -/

/-- A line that holds a command does what the command's operation does, and tells its answer. -/
theorem perform_line (h : parse line = .ok (some c)) :
    (s.perform (.line line)).2 = (s.perform c.direct).2 ∧
      (s.perform (.line line)).1.told =
        (s.perform c.direct).1.answer.map fun a => some (c.rendering a) := by
  have hrespond : s.node.respond line = (c.run s.node).map some := by
    rw [Node.respond, h]
  refine ⟨?_, ?_⟩
  · show (⟨(s.node.respond line).node, s.held⟩ : Session) = ⟨(s.outcome c.direct).node, _⟩
    rw [hrespond, Outcome.node_map, c.node_run, if_neg direct_ne_hold]
  · have htold : (s.perform (.line line)).1.told =
        ((c.run s.node).result.map Reply.text).map some := by
      show ((s.node.respond line).result.map _).map _ = _
      rw [hrespond, Outcome.result_map]
      rcases (c.run s.node).result with f | reply <;> rfl
    rw [htold, c.told_run]
    show _ = (s.outcome c.direct).result.map _
    rcases (s.outcome c.direct).result with f | a <;> rfl

theorem perform_line_of_none (h : ofLine? line = none) : (s.perform (.line line)).2 = s := by
  show (⟨(s.node.respond line).node, s.held⟩ : Session) = s
  unfold ofLine? at h
  unfold Node.respond
  split
  · next hparse =>
    rw [hparse] at h
    cases h
  · rfl
  · rfl

/-! ### Runs -/

/-- Lines do what the operations do that they stand for. -/
theorem run_lines (lines : List String) :
    (s.run (lines.map .line)).2 = (s.run ((lines.filterMap ofLine?).map direct)).2 := by
  induction lines generalizing s with
  | nil => rfl
  | cons line rest ih =>
    show ((s.perform (.line line)).2.run (rest.map .line)).2 = _
    rw [ih]
    rcases hline : ofLine? line with - | c
    · rw [perform_line_of_none s hline, List.filterMap_cons_none hline]
    · rw [(perform_line s (parse_of_ofLine? hline)).1, List.filterMap_cons_some hline]
      rfl

theorem filterMap_ofLine?_written {cs : List Command} (h : ∀ c ∈ cs, c.Writable) :
    (cs.map written).filterMap ofLine? = cs := by
  induction cs with
  | nil => rfl
  | cons c rest ih =>
    obtain ⟨hc, hrest⟩ := List.forall_mem_cons.1 h
    rw [List.map_cons, List.filterMap_cons_some (ofLine?_written hc), ih hrest]

/-- Commands that are written are answered one by one. -/
theorem told_run_written {cs : List Command} (h : ∀ c ∈ cs, c.Writable) :
    (s.run (cs.map fun c => .line c.written)).1.map Step.told =
      List.zipWith (fun c step => step.answer.map fun a => some (c.rendering a)) cs
        (s.run (cs.map direct)).1 := by
  induction cs generalizing s with
  | nil => rfl
  | cons c rest ih =>
    obtain ⟨hc, hrest⟩ := List.forall_mem_cons.1 h
    obtain ⟨hsession, htold⟩ := perform_line s (parse_written hc)
    show (s.perform (.line c.written)).1.told ::
      ((s.perform (.line c.written)).2.run _).1.map Step.told = _
    rw [htold, hsession, ih _ hrest]
    rfl

end Session

/-- **The console is a faithful front end.**  Commands that are written as lines leave, at each step,
the session that their operations leave, and the user is told the answer of each operation in words.
Conversely, whatever lines come, they do at each step what certain operations do, at most one for
each line, and these belong to commands that can be written. -/
theorem front_end_faithful (s : Session) :
    (∀ cs : List Command, (∀ c ∈ cs, c.Writable) →
      (∀ k, (s.run ((cs.take k).map fun c => .line c.written)).2 =
        (s.run ((cs.take k).map Command.direct)).2) ∧
      (s.run (cs.map fun c => .line c.written)).1.map Step.told =
        List.zipWith (fun c step => step.answer.map fun a => some (c.rendering a)) cs
          (s.run (cs.map Command.direct)).1) ∧
    ∀ lines : List String,
      (∀ line ∈ lines, ∀ c ∈ Command.ofLine? line, c.Writable) ∧
      ∀ k, (s.run ((lines.take k).map .line)).2 =
        (s.run (((lines.take k).filterMap Command.ofLine?).map Command.direct)).2 := by
  refine ⟨?_, ?_⟩
  · intro cs hcs
    refine ⟨?_, s.told_run_written hcs⟩
    intro k
    have htake : ∀ c ∈ cs.take k, c.Writable := fun c hc => hcs c (List.mem_of_mem_take hc)
    have hrun := s.run_lines ((cs.take k).map Command.written)
    rw [Session.filterMap_ofLine?_written htake, List.map_map] at hrun
    exact hrun
  · intro lines
    refine ⟨?_, fun k => s.run_lines (lines.take k)⟩
    intro line _ c hc
    exact Command.writable_of_parse (Command.parse_of_ofLine? hc)

/-- An id with a zero-width space in it, a content that begins and ends with a blank, and the
greatest age; and lines with blanks beyond ASCII, of which one has an argument too many. -/
theorem front_end_faithful_odd_blanks :
    let s := Session.start ⟨0, 5, 0⟩
    let cs : List Command :=
      [.upsert "a\u200b" " x ", .touch "b", .prune (Age.ofSeconds 18446744073709551615)]
    let lines := ["\u2003touch\u00a0b \r", "list all", "get\u3000a"]
    (∀ c ∈ cs, c.Writable) ∧
      (s.run (cs.map fun c => .line c.written)).1.map Step.told =
        [.ok (some "ok"), .ok (some "unknown peer b"), .ok (some "[]")] ∧
      (s.run (lines.map .line)).2 = (s.run [.touch "b", .get "a"]).2 := by
  intro s cs lines
  have hcs : ∀ c ∈ cs, c.Writable := by
    intro c hc
    simp only [cs, List.mem_cons, List.not_mem_nil, or_false] at hc
    rcases hc with rfl | rfl | rfl
    · exact ⟨by decide, by decide⟩
    · exact (by decide : Text.IsWord "b".toList)
    · exact ⟨_, by decide, rfl⟩
  obtain ⟨hwritten, hlines⟩ := front_end_faithful s
  refine ⟨hcs, (hwritten cs hcs).2.trans rfl, ((hlines lines).2 3).trans ?_⟩
  have hops : (lines.take 3).filterMap Command.ofLine? = [.touch "b", .get "a"] := by
    decide +kernel
  rw [hops]
  rfl

end Presence
