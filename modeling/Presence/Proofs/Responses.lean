/-
Presence/Proofs/Responses.lean

What the console says is what has been done.

With a clock that can be read, every line comes to its end in one of nine ways
(`Node.Responds`),

    no response        the line is blank
    error: …           it is no command
    unknown peer …     it asks for a peer that is not tracked
    \x7b…\x7d              it shows a peer, or all of them
    ok                 it has upserted, touched or removed a peer
    […]                it has pruned

each with what it does to the node.  A response cannot be taken for one of another
kind, since its first character tells the kind (`Reply.head?_text`); only the two
that show peers begin alike, and both of them leave the node as it is.

Main result: `responses_are_truthful`.
-/
import Presence.Proofs.CommandForms
import Presence.Proofs.Effect
import Presence.Proofs.IdLists
import Presence.Proofs.TrackedIds

namespace Presence

open Text

/-! ### Kinds of responses -/

/-- The response begins with these words. -/
def Begins (words : String) (told : Option String) : Prop :=
  ∃ text ∈ told, words.toList <+: text.toList

namespace Reply

/-- The character with which a reply of this kind begins. -/
def initial : Reply → Char
  | ok => 'o'
  | unknownPeer _ => 'u'
  | sighting _ | listing _ => '\x7b'
  | pruned _ => '['
  | rejected _ => 'e'

theorem head?_text (r : Reply) : r.text.toList.head? = some r.initial := by
  cases r with
  | ok => rfl
  | unknownPeer id | rejected e => simp [text, initial]
  | sighting s | listing r | pruned ids =>
    rw [text, String.toList_ofList]
    rfl

variable {r : Reply}

theorem initial_of_prefix {c : Char} {l : List Char} (h : c :: l <+: r.text.toList) :
    r.initial = c := by
  have hhead := r.head?_text
  obtain ⟨rest, hrest⟩ := h
  rw [← hrest] at hhead
  exact (Option.some.inj hhead).symm

@[simp] theorem begins_error_iff : Begins "error: " (some r.text) ↔ ∃ e, r = .rejected e := by
  constructor
  · rintro ⟨text, ⟨⟩, hprefix⟩
    have hinitial : r.initial = 'e' := initial_of_prefix hprefix
    cases r <;> simp_all [initial]
  · rintro ⟨e, rfl⟩
    exact ⟨_, rfl, by simp [text]⟩

@[simp] theorem begins_unknown_iff :
    Begins "unknown peer " (some r.text) ↔ ∃ id, r = .unknownPeer id := by
  constructor
  · rintro ⟨text, ⟨⟩, hprefix⟩
    have hinitial : r.initial = 'u' := initial_of_prefix hprefix
    cases r <;> simp_all [initial]
  · rintro ⟨id, rfl⟩
    exact ⟨_, rfl, by simp [text]⟩

@[simp] theorem text_eq_ok_iff : r.text = "ok" ↔ r = .ok := by
  constructor
  · intro h
    have hhead := r.head?_text
    rw [h] at hhead
    have hinitial : r.initial = 'o' := (Option.some.inj hhead).symm
    cases r <;> simp_all [initial]
  · rintro rfl
    rfl

end Reply

@[simp] theorem not_begins_none (words : String) : ¬ Begins words none := by
  rintro ⟨text, ⟨⟩, -⟩

/-! ### Ways in which a line can come to its end -/

/-- The peer that has to be tracked for a command. -/
def Command.needs? : Command → Option String
  | touch id | remove id | get id => some id
  | upsert _ _ | list | prune _ => none

/-- The ways in which a line can come to its end: what it holds, the reply, and the node
afterwards. -/
inductive Node.Responds (n : Node) (line : String) : Option Reply → Node → Prop
  | silent : Command.parse line = .ok none → Responds n line none n
  | rejected (e : CommandError) : Command.parse line = .error e →
      Responds n line (some (.rejected e)) n
  | unknown (c : Command) (id : String) : Command.parse line = .ok (some c) →
      c.needs? = some id → n.registry.get? id = none → Responds n line (some (.unknownPeer id)) n
  | got (id : String) (x : Sighting) : Command.parse line = .ok (some (.get id)) →
      n.registry.get? id = some x → Responds n line (some (.sighting x)) n
  | listed : Command.parse line = .ok (some .list) →
      Responds n line (some (.listing n.registry)) n
  | upserted (id content : String) (now : Instant) :
      Command.parse line = .ok (some (.upsert id content)) → n.clock.now? = some now →
      Responds n line (some .ok) { n.tick with registry := n.registry.insert id ⟨content, now⟩ }
  | touched (id : String) (x : Sighting) (now : Instant) :
      Command.parse line = .ok (some (.touch id)) → n.registry.get? id = some x →
      n.clock.now? = some now →
      Responds n line (some .ok)
        { n.tick with registry := n.registry.insert id { x with lastSeen := now } }
  | removed (id : String) (x : Sighting) : Command.parse line = .ok (some (.remove id)) →
      n.registry.get? id = some x →
      Responds n line (some .ok) { n with registry := n.registry.erase id }
  | pruned (maxAge : Age) (cutoff : Instant) : Command.parse line = .ok (some (.prune maxAge)) →
      Responds n line (some (.pruned (n.registry.stale cutoff)))
        { n.tick with registry := n.registry.prune cutoff }

namespace Node

variable {n : Node} {line : String}

/-- To remove a peer that is not tracked changes nothing. -/
theorem erase_of_get?_eq_none {id : String} (h : n.registry.get? id = none) :
    { n with registry := n.registry.erase id } = n := by
  have herase : n.registry.erase id = n.registry := by
    apply Registry.ext_get?
    intro key
    rw [Registry.get?_erase]
    split
    · next heq => rw [← heq, h]
    · rfl
  rw [herase]

/-- A line that holds a command comes to its end in the command's way. -/
theorem responds_of_command {now : Instant} (hnow : n.clock.now? = some now) {c : Command}
    (h : Command.parse line = .ok (some c)) :
    ∃ reply, (c.run n).result = .ok reply ∧ n.Responds line (some reply) (c.run n).node := by
  cases c with
  | upsert id content =>
    have hrun : (Command.upsert id content).run n = _ :=
      congrArg (fun o : Outcome Unit =>
        { o.map fun _ => Reply.ok with log := .upserting id :: o.log })
        ((n.upsert_eq id content).trans (n.reading_of_now? _ hnow))
    rw [hrun]
    exact ⟨_, rfl, .upserted id content now h hnow⟩
  | touch id =>
    rw [Command.run, touch_eq]
    rcases hid : n.registry.get? id with - | x
    · exact ⟨_, rfl, .unknown _ id h rfl hid⟩
    · dsimp only
      rw [n.reading_of_now? _ hnow]
      exact ⟨_, rfl, .touched id x now h hid hnow⟩
  | remove id =>
    rw [Command.run, remove_eq]
    rcases hid : n.registry.get? id with - | x
    · refine ⟨_, rfl, ?_⟩
      rw [Outcome.node_map, erase_of_get?_eq_none hid]
      exact .unknown _ id h rfl hid
    · exact ⟨_, rfl, .removed id x h hid⟩
  | get id =>
    rw [run_get_eq]
    rcases hid : n.registry.get? id with - | x
    · exact ⟨_, rfl, .unknown _ id h rfl hid⟩
    · exact ⟨_, rfl, .got id x h hid⟩
  | list =>
    rw [run_list_eq]
    exact ⟨_, rfl, .listed h⟩
  | prune maxAge =>
    rw [Command.run, dropOlderThan_eq, n.reading_of_now? _ hnow]
    exact ⟨_, rfl, .pruned maxAge (cutoffBefore now maxAge) h⟩

/-- **With a clock that can be read every line is answered**, or it is blank. -/
theorem responds (h : n.clock.Readable) (line : String) :
    ∃ reply?, (n.respond line).result = .ok reply? ∧
      n.Responds line reply? (n.respond line).node := by
  have hnow : n.clock.now? = some (Instant.ofNanos n.clock.nanos) :=
    Clock.now?_eq_some_iff.2 ⟨h, rfl⟩
  rw [respond]
  split
  · next c hparse =>
    obtain ⟨reply, hresult, hresponds⟩ := responds_of_command hnow hparse
    refine ⟨some reply, ?_, hresponds⟩
    rw [Outcome.result_map, hresult]
    rfl
  · next hparse => exact ⟨none, rfl, .silent hparse⟩
  · next e hparse => exact ⟨some (.rejected e), rfl, .rejected e hparse⟩

end Node

/-! ### What a response tells -/

/-- The response to a line tells what has been done: `n` is the node before, `after` the node
afterwards, and `told` the response, if there is one. -/
structure Truthful (n : Node) (line : String) (told : Option String) (after : Node) : Prop where
  /-- Only blank lines get no response. -/
  silent_iff : told = none ↔ ∀ c ∈ line.toList, isBlank c = true
  /-- Only lines that are no commands get an error. -/
  error_iff : Begins "error: " told ↔ ∃ e, Command.parse line = .error e
  /-- Only who asks for a peer that is not tracked is told so. -/
  unknown_iff : Begins "unknown peer " told ↔
    ∃ c id, Command.parse line = .ok (some c) ∧ c.needs? = some id ∧
      n.registry.contains id = false
  /-- In all these cases nothing has been done, nor where peers are shown. -/
  unchanged : told = none ∨ Begins "error: " told ∨ Begins "unknown peer " told ∨
    (∃ id, Command.parse line = .ok (some (.get id))) ∨ Command.parse line = .ok (some .list) →
    after = n
  /-- Upserts are done, and touches and removes of tracked peers, and only they. -/
  ok_iff : told = some "ok" ↔
    (∃ id content, Command.parse line = .ok (some (.upsert id content))) ∨
    ∃ id, n.registry.contains id = true ∧
      (Command.parse line = .ok (some (.touch id)) ∨ Command.parse line = .ok (some (.remove id)))
  /-- What is done is done to the peer that is named, and to no other. -/
  ok_done : told = some "ok" → ∃ id,
    (∀ key, key ≠ id → after.registry.get? key = n.registry.get? key) ∧
    ((∃ content now, Command.parse line = .ok (some (.upsert id content)) ∧
        n.clock.now? = some now ∧ after.registry.get? id = some ⟨content, now⟩) ∨
      (∃ x now, Command.parse line = .ok (some (.touch id)) ∧ n.registry.get? id = some x ∧
        n.clock.now? = some now ∧ after.registry.get? id = some ⟨x.content, now⟩) ∨
      (Command.parse line = .ok (some (.remove id)) ∧ after.registry.get? id = none))
  /-- A prune gives each peer once that is no longer tracked, and leaves the others as they are. -/
  pruned : ∀ maxAge, Command.parse line = .ok (some (.prune maxAge)) →
    ∃ text ids, told = some text ∧ Json.idsOf text = .ok ids ∧ ids.Nodup ∧
      (∀ id, id ∈ ids ↔ n.registry.contains id = true ∧ after.registry.contains id = false) ∧
      ∀ id x, after.registry.get? id = some x → n.registry.get? id = some x

namespace Node.Responds

variable {n after : Node} {line : String} {reply? : Option Reply}
  (h : n.Responds line reply? after)

include h

theorem eq_none_iff : reply? = none ↔ Command.parse line = .ok none := by
  cases h <;> simp [*]

theorem rejected_iff : (∃ e, reply? = some (.rejected e)) ↔ ∃ e, Command.parse line = .error e := by
  cases h <;> simp [*]

theorem unknown_iff : (∃ id, reply? = some (.unknownPeer id)) ↔
    ∃ c id, Command.parse line = .ok (some c) ∧ c.needs? = some id ∧
      n.registry.get? id = none := by
  cases h with
  | unknown c id hparse hneeds hid => exact iff_of_true ⟨id, rfl⟩ ⟨c, id, hparse, hneeds, hid⟩
  | _ => simp [Command.needs?, *]

theorem ok_iff : reply? = some .ok ↔
    (∃ id content, Command.parse line = .ok (some (.upsert id content))) ∨
    ∃ id, (∃ x, n.registry.get? id = some x) ∧
      (Command.parse line = .ok (some (.touch id)) ∨
        Command.parse line = .ok (some (.remove id))) := by
  cases h with
  | unknown c id hparse hneeds hid =>
    -- an upsert needs nobody, and who is touched or removed is the one who is not there
    cases c <;> simp_all [Command.needs?]
  | _ => simp [*]

/-- Nothing has been done where a peer is not tracked, and where peers are shown. -/
theorem unchanged (hkind : reply? = none ∨ (∃ e, reply? = some (.rejected e)) ∨
    (∃ id, reply? = some (.unknownPeer id)) ∨
    (∃ id, Command.parse line = .ok (some (.get id))) ∨ Command.parse line = .ok (some .list)) :
    after = n := by
  cases h <;> simp_all

theorem ok_done (hok : reply? = some .ok) : ∃ id,
    (∀ key, key ≠ id → after.registry.get? key = n.registry.get? key) ∧
    ((∃ content now, Command.parse line = .ok (some (.upsert id content)) ∧
        n.clock.now? = some now ∧ after.registry.get? id = some ⟨content, now⟩) ∨
      (∃ x now, Command.parse line = .ok (some (.touch id)) ∧ n.registry.get? id = some x ∧
        n.clock.now? = some now ∧ after.registry.get? id = some ⟨x.content, now⟩) ∨
      (Command.parse line = .ok (some (.remove id)) ∧ after.registry.get? id = none)) := by
  cases h with
  | upserted id content now hparse hnow =>
    refine ⟨id, ?_, Or.inl ⟨content, now, hparse, hnow, ?_⟩⟩
    · intro key hkey
      rw [Registry.get?_insert, if_neg hkey.symm]
    · rw [Registry.get?_insert, if_pos rfl]
  | touched id x now hparse hid hnow =>
    refine ⟨id, ?_, Or.inr (Or.inl ⟨x, now, hparse, hid, hnow, ?_⟩)⟩
    · intro key hkey
      rw [Registry.get?_insert, if_neg hkey.symm]
    · rw [Registry.get?_insert, if_pos rfl]
  | removed id x hparse hid =>
    refine ⟨id, ?_, Or.inr (Or.inr ⟨hparse, ?_⟩)⟩
    · intro key hkey
      rw [Registry.get?_erase, if_neg hkey.symm]
    · rw [Registry.get?_erase, if_pos rfl]
  | silent _ | rejected _ _ | unknown _ _ _ _ _ | got _ _ _ _ | listed _ | pruned _ _ _ =>
    cases hok

theorem pruned_done {maxAge : Age} (hparse : Command.parse line = .ok (some (.prune maxAge))) :
    ∃ ids, reply? = some (.pruned ids) ∧ ids.Nodup ∧
      (∀ id, id ∈ ids ↔ n.registry.contains id = true ∧ after.registry.contains id = false) ∧
      ∀ id x, after.registry.get? id = some x → n.registry.get? id = some x := by
  cases h with
  | pruned _ cutoff _ =>
    refine ⟨n.registry.stale cutoff, rfl, n.registry.nodup_stale cutoff, ?_, ?_⟩
    · intro id
      rw [Registry.contains_prune]
      by_cases hmem : id ∈ n.registry.stale cutoff
      · simp [hmem, n.registry.contains_of_mem_stale hmem]
      · simp [hmem]
    · intro id x hx
      rw [Registry.get?_prune] at hx
      exact (Option.filter_eq_some_iff.1 hx).1
  | unknown c id hc hneeds _ =>
    obtain rfl := Option.some.inj (Except.ok.inj (hc.symm.trans hparse))
    cases hneeds
  | _ => simp_all

/-- A response tells what has been done. -/
theorem truthful : Truthful n line (reply?.map Reply.text) after where
  silent_iff := by
    rw [Option.map_eq_none_iff, h.eq_none_iff, Command.parse_eq_none_iff]
  error_iff := by
    rw [← h.rejected_iff]
    cases reply? <;> simp
  unknown_iff := by
    simp only [Registry.contains_eq_false_iff]
    rw [← h.unknown_iff]
    cases reply? <;> simp
  unchanged := by
    intro hkind
    apply h.unchanged
    cases reply? <;> simp_all
  ok_iff := by
    simp only [Registry.contains_iff]
    rw [← h.ok_iff]
    cases reply? <;> simp
  ok_done := by
    intro hok
    apply h.ok_done
    cases reply? <;> simp_all
  pruned := by
    intro maxAge hparse
    obtain ⟨ids, rfl, hids⟩ := h.pruned_done hparse
    exact ⟨_, ids, rfl, Json.idsOf_stringArray ids, hids⟩

end Node.Responds

/-- **Responses are truthful.**  With a clock that can be read, every line comes to its end, and
from the response, or from there being none, it can be told what kind of line it was and what has
been done to the registry, by this line and nothing else. -/
theorem responses_are_truthful (n : Node) (h : n.clock.Readable) (line : String) :
    ∃ told, (n.respond line).result.map (Option.map Reply.text) = .ok told ∧
      Truthful n line told (n.respond line).node := by
  obtain ⟨reply?, hresult, hresponds⟩ := n.responds h line
  refine ⟨reply?.map Reply.text, ?_, hresponds.truthful⟩
  rw [hresult]
  rfl

/-- A prune of one of two peers, whose id holds a quote, a comma and a bracket. -/
theorem responses_are_truthful_of_prune :
    let n : Node :=
      { registry := Registry.ofList [("a\",]", ⟨"x", ⟨1, 0⟩⟩), ("b", ⟨"y", ⟨2, 0⟩⟩)]
        clock := ⟨5000000000, 1, 0⟩ }
    let told := "[\"a\\\",]\"]"
    n.clock.Readable ∧
      (n.respond " prune 3 \r").result.map (Option.map Reply.text) = .ok (some told) ∧
      Truthful n " prune 3 \r" (some told) (n.respond " prune 3 \r").node := by
  intro n told
  have hreadable : n.clock.Readable := by decide
  have hresult : (n.respond " prune 3 \r").result.map (Option.map Reply.text) =
      .ok (some told) := by
    decide +kernel
  obtain ⟨told', htold, htruthful⟩ := responses_are_truthful n hreadable " prune 3 \r"
  obtain rfl := Except.ok.inj (htold.symm.trans hresult)
  exact ⟨hreadable, hresult, htruthful⟩

end Presence
