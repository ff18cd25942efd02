/-
Presence/Proofs/UpsertLines.lean

Lines that upsert.

A line upserts if it is laid out as

    blanks  upsert  blanks  id  blank content  line ends

where the blanks in front, the content with its blank, and the line ends may be
missing (`UpsertLine`).  There is one blank before the content and no more; what
comes behind it is the content as it stands, whatever it begins with and whatever
line ends are inside of it.  Only at its end it has none.

Such a line is read as the upsert of this id with this content, and no other line
is read as one.  Two things are to be seen for this: the line ends that are
dropped are those behind the content, or the blank before an empty one goes with
them (`exists_carries_dropLineEnds`); and behind the id the line is cut at one
blank (`exists_carries`).

Main result: `upsert_lines_are_verbatim`, and with it the contents in a registry
that come from lines.
-/
import Presence.Proofs.CommandForms
import Presence.Proofs.PeerHistory

namespace Presence

open Text

/-- The parts of a line that upserts, in the order in which they stand there. -/
structure UpsertLine (id content : String) where
  /-- The blanks in front. -/
  front : List Char
  /-- The blanks between the verb and the id, one at least. -/
  gap : List Char
  /-- What follows the id: nothing, or a single blank and the content. -/
  rest : List Char
  /-- The line ends. -/
  ends : List Char
  front_blank : ∀ c ∈ front, isBlank c = true
  gap_blank : ∀ c ∈ gap, isBlank c = true
  gap_nonempty : gap ≠ []
  id_word : IsWord id.toList
  carries : Carries rest content.toList
  content_plain : EndsPlain content.toList
  ends_lineEnd : ∀ c ∈ ends, isLineEnd c = true

namespace UpsertLine

variable {id content : String} (l : UpsertLine id content)

/-- The line as it is written. -/
def chars : List Char :=
  l.front ++ Verb.upsert.name.toList ++ l.gap ++ id.toList ++ l.rest ++ l.ends

/-- What is read of the line: the verb, the id and the content, with the blanks between them. -/
theorem exists_skipBlanks_chars :
    ∃ rest, skipBlanks (dropLineEnds l.chars) =
        Verb.upsert.name.toList ++ (l.gap ++ (id.toList ++ rest)) ∧
      Carries rest content.toList := by
  obtain ⟨rest, hdrop, hrest⟩ := exists_carries_dropLineEnds l.id_word l.carries l.content_plain
    (l.front ++ Verb.upsert.name.toList ++ l.gap)
  refine ⟨rest, ?_, hrest⟩
  rw [chars, dropLineEnds_append l.ends_lineEnd, hdrop]
  simp only [List.append_assoc]
  rw [skipBlanks_append l.front_blank, skipBlanks_of_head (Verb.isWord_name .upsert).head]

/-- A line of this form is read as an upsert of its id with its content. -/
theorem parse_eq {line : String} (hline : line.toList = l.chars) :
    Command.parse line = .ok (some (.upsert id content)) := by
  obtain ⟨rest, hread, hrest⟩ := l.exists_skipBlanks_chars
  obtain ⟨b, gap, hgap⟩ := List.exists_cons_of_ne_nil l.gap_nonempty
  obtain ⟨hb, hgapBlank⟩ := List.forall_mem_cons.1 (hgap ▸ l.gap_blank)
  have hverb := (Verb.isWord_name .upsert).blankFree
  have hid := l.id_word
  rw [hgap, List.cons_append] at hread
  rw [Command.parse_eq_some_iff, hline, hread, firstWord_append hverb hb,
    afterFirstWord_append hverb hb, skipBlanks_append hgapBlank, skipBlanks_of_head hid.head]
  refine ⟨rfl, ?_⟩
  show Command.ofVerb .upsert (id.toList ++ rest) = _
  rw [Command.ofVerb, firstWord_append_carries hid.blankFree hrest,
    afterFirstWord_append_carries hid.blankFree hrest]
  split
  · next hnil => exact absurd hnil hid.nonempty
  · rw [String.ofList_toList, String.ofList_toList]

end UpsertLine

namespace Command

variable {id content line : String}

/-- The arguments of an upsert are the id and what carries the content. -/
theorem exists_of_ofVerb_upsert {args : List Char}
    (h : ofVerb .upsert args = .ok (.upsert id content)) :
    ∃ rest, args = id.toList ++ rest ∧ Carries rest content.toList := by
  obtain ⟨rest, hargs, hrest⟩ := exists_carries args
  rw [ofVerb] at h
  split at h
  · cases h
  · obtain ⟨rfl, rfl⟩ := Command.upsert.inj (Except.ok.inj h)
    rw [String.toList_ofList, String.toList_ofList]
    exact ⟨rest, hargs, hrest⟩

/-- A line that is read as an upsert has the form of one. -/
theorem exists_upsertLine (h : parse line = .ok (some (.upsert id content))) :
    ∃ l : UpsertLine id content, line.toList = l.chars := by
  obtain ⟨hid, hcontent⟩ := writable_of_parse h
  obtain ⟨hverb, hread⟩ := parse_eq_some_iff.1 h
  obtain ⟨rest, hargs, hrest⟩ := exists_of_ofVerb_upsert hread
  have hne : id.toList ++ rest ≠ [] := List.append_ne_nil_of_left_ne_nil hid.nonempty rest
  -- the line is taken apart from the outside: line ends, blanks in front, the verb, the arguments
  obtain ⟨ends, hends, hline⟩ := exists_lineEnds line.toList
  obtain ⟨front, hfront, hdrop⟩ := exists_blanks (dropLineEnds line.toList)
  obtain ⟨gap, hgap, hblank, hsplit⟩ := exists_gap hargs hne
  refine ⟨⟨front, gap, rest, ends, hfront, hblank, hgap, hid, hrest, hcontent, hends⟩, ?_⟩
  rw [hline, hdrop, hsplit, hverb]
  simp [UpsertLine.chars, verb]

theorem parse_eq_upsert_iff :
    parse line = .ok (some (.upsert id content)) ↔
      ∃ l : UpsertLine id content, line.toList = l.chars :=
  ⟨exists_upsertLine, fun ⟨l, hline⟩ => l.parse_eq hline⟩

end Command

/-! ### Contents in a registry -/

/-- After an event the peer has the content that it had, or that of an upsert. -/
theorem PeerEvent.content_apply {known : Option Sighting} {e : PeerEvent} {x : Sighting}
    (h : apply known e = some x) :
    (∃ y, known = some y ∧ y.content = x.content) ∨ ∃ now?, e = upserted x.content now? := by
  cases e with
  | upserted content now? =>
    cases now? with
    | none => exact Or.inl ⟨x, h, rfl⟩
    | some now =>
      obtain rfl := Option.some.inj h
      exact Or.inr ⟨some now, rfl⟩
  | touched now? =>
    cases now? with
    | none => exact Or.inl ⟨x, h, rfl⟩
    | some now =>
      obtain ⟨y, hy, rfl⟩ := Option.map_eq_some_iff.1 h
      exact Or.inl ⟨y, hy, rfl⟩
  | removed => simp [apply] at h
  | pruned cutoff? =>
    cases cutoff? with
    | none => exact Or.inl ⟨x, h, rfl⟩
    | some cutoff => exact Or.inl ⟨x, (Option.filter_eq_some_iff.1 h).1, rfl⟩

theorem Command.eq_upsert_of_eventFor {c : Command} {id content : String}
    {now? now?' : Option Instant} (h : c.eventFor id now? = some (.upserted content now?')) :
    c = .upsert id content := by
  cases c with
  | upsert key text =>
    obtain ⟨rfl, hevent⟩ := Option.ite_none_right_eq_some.1 h
    obtain ⟨rfl, -⟩ := PeerEvent.upserted.inj (Option.some.inj hevent)
    rfl
  | touch key | remove key =>
    obtain ⟨-, hevent⟩ := Option.ite_none_right_eq_some.1 h
    cases hevent
  | get _ | list | prune _ => cases h

namespace Node

variable {n : Node} {line id content : String}

/-- A line that upserts stores the content as it stands there. -/
theorem get?_respond_of_upsertLine {now : Instant} (hnow : n.clock.now? = some now)
    (l : UpsertLine id content) (hline : line.toList = l.chars) :
    (n.respond line).node.registry.get? id = some ⟨content, now⟩ := by
  rw [get?_respond, Action.eventFor, l.parse_eq hline, hnow]
  simp [Command.eventFor, PeerEvent.apply]

/-- A content comes into the registry only by a line that upserts it. -/
theorem exists_of_get?_respond {x : Sighting}
    (h : (n.respond line).node.registry.get? id = some x) :
    (∃ y, n.registry.get? id = some y ∧ y.content = x.content) ∨
      ∃ l : UpsertLine id x.content, line.toList = l.chars := by
  rw [get?_respond, Action.eventFor] at h
  split at h
  · next c hparse =>
    rcases hevent : c.eventFor id n.clock.now? with - | e
    · rw [hevent] at h
      exact Or.inl ⟨x, h, rfl⟩
    · rw [hevent] at h
      obtain hknown | ⟨now?, rfl⟩ := PeerEvent.content_apply h
      · exact Or.inl hknown
      · obtain rfl := Command.eq_upsert_of_eventFor hevent
        exact Or.inr (Command.exists_upsertLine hparse)
  · exact Or.inl ⟨x, h, rfl⟩

end Node

/-- **Upsert lines are read verbatim, and only they are.**  A line is read as the upsert of an id
with a content exactly if it has the form of one.  Then the content that is stored is the one that
stands there, character for character.  And whatever line comes, a content that is known of a peer
afterwards was known of it before, or stands on the line in this way. -/
theorem upsert_lines_are_verbatim :
    (∀ line id content : String, Command.parse line = .ok (some (.upsert id content)) ↔
      ∃ l : UpsertLine id content, line.toList = l.chars) ∧
    (∀ (n : Node) (now : Instant) (line id content : String), n.clock.now? = some now →
      ∀ l : UpsertLine id content, line.toList = l.chars →
        (n.respond line).node.registry.get? id = some ⟨content, now⟩) ∧
    ∀ (n : Node) (line id : String) (x : Sighting),
      (n.respond line).node.registry.get? id = some x →
        (∃ y, n.registry.get? id = some y ∧ y.content = x.content) ∨
          ∃ l : UpsertLine id x.content, line.toList = l.chars := by
  refine ⟨?_, ?_, ?_⟩
  · intro line id content
    exact Command.parse_eq_upsert_iff
  · intro n now line id content hnow l hline
    exact Node.get?_respond_of_upsertLine hnow l hline
  · intro n line id x h
    exact Node.exists_of_get?_respond h

/-- Blanks beyond ASCII in front, several of them before the id, a content that begins and ends with
a blank and has a line end inside of it, and two line ends behind it. -/
theorem upsert_lines_are_verbatim_with_line_end_inside :
    let n := Node.fresh ⟨0, 5, 0⟩
    let line := "\u2003upsert \t a\u200b  x\ny \r\n"
    n.clock.now? = some ⟨0, 0⟩ ∧
      (∃ l : UpsertLine "a\u200b" " x\ny ", line.toList = l.chars) ∧
      Command.parse line = .ok (some (.upsert "a\u200b" " x\ny ")) ∧
      (n.respond line).node.registry.get? "a\u200b" = some ⟨" x\ny ", ⟨0, 0⟩⟩ := by
  intro n line
  have hnow : n.clock.now? = some ⟨0, 0⟩ := by decide
  let l : UpsertLine "a\u200b" " x\ny " :=
    { front := ['\u2003'], gap := [' ', '\t', ' '], rest := "  x\ny ".toList, ends := ['\r', '\n']
      front_blank := List.all_eq_true.1 (by decide)
      gap_blank := List.all_eq_true.1 (by decide)
      gap_nonempty := List.cons_ne_nil _ _
      id_word := by decide
      carries := .behind " x\ny ".toList (by decide)
      content_plain := by decide
      ends_lineEnd := List.all_eq_true.1 (by decide) }
  have hline : line.toList = l.chars := by decide
  obtain ⟨hread, hstore, -⟩ := upsert_lines_are_verbatim
  exact ⟨hnow, ⟨l, hline⟩, (hread _ _ _).2 ⟨l, hline⟩, hstore n ⟨0, 0⟩ line _ _ hnow l hline⟩

end Presence
