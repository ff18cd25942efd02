/-
Presence/Proofs/SweepLog.lean

What the log tells of a sweep, and how it is read back.

A sweep that drops somebody is one line of the log,

    INFO dropped stale peers: a, b dropped_count=2 remaining=5

The ids stand on it as they are, and nothing marks where one of them ends.  So
whether they can be told apart hangs on the ids, and with them on how peers come
to be tracked.  The id on a line of the console is a word, and only an upsert adds
an id.  Hence in a session that tracks peers through lines all ids are words
(`Session.namedByWords_run`), whatever else happens in it.

The two numbers are taken off first, from behind.  An id may end in a comma, and
if it is the last one, the blank in front of the numbers would be taken for a part
of a separator (`SweepReport.ofLine?`).

Main result: `sweep_log_reads_back`.
-/
import Presence.Proofs.CommandForms
import Presence.Proofs.Ledger
import Presence.Proofs.Listings
import Presence.Proofs.RepeatedPrunes

namespace Presence

open Text

/-! ### Values at the end of a text -/

namespace Text

variable {w : List Char} {b : Char} {label : String}

/-- What stands before the last blank of a text, and what stands behind it. -/
def cutAtLastBlank (s : List Char) : List Char × List Char :=
  ((afterFirstWord s.reverse).reverse, (firstWord s.reverse).reverse)

/-- Takes a number off the end of a text, where it stands behind a blank and a label. -/
def takeValue? (label : String) (s : List Char) : Option (List Char × Nat) := do
  let (front, word) := cutAtLastBlank s
  let digits ← word.dropPrefix? label.toList
  if digits ≠ [] ∧ digits.all Char.isDigit then some (front, digitsValue digits) else none

theorem cutAtLastBlank_append (hw : BlankFree w) (hb : isBlank b = true) (s : List Char) :
    cutAtLastBlank (s ++ b :: w) = (s, w) := by
  have hreverse : (s ++ b :: w).reverse = w.reverse ++ b :: s.reverse := by simp
  have hw : BlankFree w.reverse := fun c hc => hw c (List.mem_reverse.1 hc)
  rw [cutAtLastBlank, hreverse, firstWord_append hw hb, afterFirstWord_append hw hb,
    List.reverse_reverse, List.reverse_reverse]

theorem dropPrefix?_append (front s : List Char) : (front ++ s).dropPrefix? front = some s :=
  List.dropPrefix?_eq_some_iff.2 ⟨front, rfl, beq_self_eq_true front⟩

/-- A number that has been written behind a label is taken off again. -/
theorem takeValue?_append (hlabel : BlankFree label.toList) (s : List Char) (n : Nat) :
    takeValue? label (s ++ ' ' :: (label.toList ++ decimal n)) = some (s, n) := by
  have hword : BlankFree (label.toList ++ decimal n) :=
    List.forall_mem_append.2 ⟨hlabel, (Command.isWord_decimal n).blankFree⟩
  obtain ⟨hne, hdigits, hvalue⟩ := writes_decimal n
  rw [takeValue?, cutAtLastBlank_append hword (by decide)]
  dsimp only
  rw [dropPrefix?_append, Option.bind_eq_bind, Option.bind_some,
    if_pos ⟨hne, List.all_eq_true.2 hdigits⟩, hvalue]

end Text

/-! ### Reports -/

/-- What the log tells of a sweep that has dropped peers. -/
structure SweepReport where
  /-- The peers that have been dropped. -/
  dropped : List String
  /-- How many they are said to be. -/
  count : Nat
  /-- How many peers are said to be left. -/
  remaining : Nat
  deriving DecidableEq, Repr

/-- Reads a line of the log that tells of such a sweep. -/
def SweepReport.ofLine? (line : String) : Option SweepReport := do
  let s ← line.toList.dropPrefix? "INFO dropped stale peers: ".toList
  let (s, remaining) ← takeValue? "remaining=" s
  let (s, count) ← takeValue? "dropped_count=" s
  return ⟨namesOn (String.ofList s), count, remaining⟩

section

variable {ids : List String} {remaining : Nat}

/-- The ids stand on the line as they are. -/
theorem Notice.line_sweptAway :
    (sweptAway ids remaining).line = "INFO dropped stale peers: " ++ ", ".intercalate ids ++
      " dropped_count=" ++ toString ids.length ++ " remaining=" ++ toString remaining := by
  have hhead : "INFO dropped stale peers: " = "INFO" ++ " " ++ "dropped stale peers: " := rfl
  rw [hhead]
  show "INFO" ++ " " ++ ("dropped stale peers: " ++ ", ".intercalate ids ++
    (" dropped_count=" ++ toString ids.length ++ " remaining=" ++ toString remaining)) = _
  simp only [String.append_assoc]

/-- What is read of such a line is what has been logged. -/
theorem SweepReport.ofLine?_line (hne : ids ≠ []) (hids : ∀ id ∈ ids, IsWord id.toList) :
    ofLine? (Notice.sweptAway ids remaining).line = some ⟨ids, ids.length, remaining⟩ := by
  have hnames : namesOn (", ".intercalate ids) = ids := namesOn_listing hne
    fun id hid => (hids id hid).blankFree.uncut
  have hline : (Notice.sweptAway ids remaining).line.toList =
      "INFO dropped stale peers: ".toList ++ ((", ".intercalate ids).toList ++
        ' ' :: ("dropped_count=".toList ++ decimal ids.length) ++
        ' ' :: ("remaining=".toList ++ decimal remaining)) := by
    rw [Notice.line_sweptAway]
    simp [decimal]
  rw [ofLine?, hline, dropPrefix?_append]
  simp only [Option.bind_eq_bind, Option.bind_some]
  -- the number of those who are left stands behind the other one, so it is taken off first
  rw [takeValue?_append (by decide), Option.bind_some, takeValue?_append (by decide),
    Option.bind_some, String.ofList_toList, hnames]
  rfl

end

/-! ### Ids that are words -/

/-- Every id is a word. -/
def Registry.NamedByWords (r : Registry) : Prop := ∀ id ∈ r.ids, IsWord id.toList

/-- The action tracks nobody, or it does so through a line of the console. -/
def Action.TracksByLine : Action → Prop
  | .upsert _ _ | .command (.upsert _ _) => False
  | _ => True

variable {r : Registry} {id : String}

/-- Whoever is there after a turn was there before it or is new. -/
theorem Registry.Turn.mem_ids {s : Registry} {added dropped : List String}
    (h : r.Turn added dropped s) (hid : id ∈ s.ids) : id ∈ r.ids ∨ id ∈ added := by
  rw [Registry.mem_ids_iff] at hid ⊢
  by_contra hnone
  obtain ⟨hold, hnew⟩ := not_or.1 hnone
  -- an id that comes to be tracked is tracked anew once more than it is forgotten
  have hcount := (h.alternates id).count_eq
  rw [Ledger.changesOf_append, Ledger.changesOf_enter, Ledger.changesOf_enter,
    List.count_eq_zero.2 hnew, Bool.eq_false_iff.2 hold, hid] at hcount
  simp [List.count_replicate] at hcount

/-- A command that can be written as a line tracks a word, if it tracks anybody. -/
theorem Command.Writable.isWord_of_mem_added {c : Command} (h : c.Writable)
    (hid : id ∈ c.added r) : IsWord id.toList := by
  cases c with
  | upsert key content =>
    rw [added] at hid
    split at hid
    · cases hid
    · obtain rfl := List.mem_singleton.1 hid
      exact h.1
  | touch _ | remove _ | get _ | list | prune _ => cases hid

theorem Action.TracksByLine.isWord_of_mem_added {a : Action} (h : a.TracksByLine)
    (hid : id ∈ a.added r) : IsWord id.toList := by
  cases a with
  | upsert _ _ => exact h.elim
  | line text =>
    -- only a line that is read as a command can track anybody, and such a command can be written
    rw [Action.added, Action.command?] at hid
    rcases hparse : Command.parse text with e | - | c
    · simp [hparse] at hid
    · simp [hparse] at hid
    · rw [hparse] at hid
      exact (Command.writable_of_parse hparse).isWord_of_mem_added hid
  | command c =>
    cases c with
    | upsert _ _ => exact h.elim
    | touch _ | remove _ | get _ | list | prune _ => cases hid
  | setClock _ | advance _ | touch _ | remove _ | get _ | contains _ | size | isEmpty | snapshot
  | hold | held | prune _ | sweep _ => cases hid

namespace Session

variable {s : Session}

theorem namedByWords_perform (h : s.node.registry.NamedByWords) {a : Action}
    (ha : a.TracksByLine) : (s.perform a).2.node.registry.NamedByWords := by
  show (s.outcome a).node.registry.NamedByWords
  rcases hresult : (s.outcome a).result with f | answer
  · rw [(s.turns_outcome a).of_error hresult]
    exact h
  · intro id hid
    rcases ((s.turns_outcome a).of_ok hresult).mem_ids hid with hold | hnew
    · exact h id hold
    · exact ha.isWord_of_mem_added hnew

/-- As long as peers are tracked through lines, all ids are words. -/
theorem namedByWords_run (h : s.node.registry.NamedByWords) {actions : List Action}
    (hlines : ∀ a ∈ actions, a.TracksByLine) : (s.run actions).2.node.registry.NamedByWords := by
  induction actions generalizing s with
  | nil => exact h
  | cons a rest ih =>
    obtain ⟨ha, hrest⟩ := List.forall_mem_cons.1 hlines
    exact ih (namedByWords_perform h ha) hrest

end Session

/-! ### What is read back -/

/-- **The log of a sweep is read back.**  In a session that tracks peers through lines all ids are
words, whatever the clock shows.  If a sweep then drops somebody, it logs one line.  The names on
it, cut at every comma with a space behind it, are the ids of those who were there before the sweep
and are not afterwards, each once, and they would be so in any other order; the first number is how
many they are, and together with the second one it makes up the size before the sweep.  All this can
be read off the line itself. -/
theorem sweep_log_reads_back (clock : Clock) {actions : List Action}
    (hlines : ∀ a ∈ actions, a.TracksByLine) :
    let n := ((Session.start clock).run actions).2.node
    (∀ id ∈ n.registry.ids, IsWord id.toList) ∧
      ∀ maxAge ids, (n.sweep maxAge).result = .ok ids → ids ≠ [] →
        let left := (n.sweep maxAge).node.registry
        let names := ", ".intercalate ids
        let line := "INFO dropped stale peers: " ++ names ++
          " dropped_count=" ++ toString ids.length ++ " remaining=" ++ toString left.size
        (n.sweep maxAge).log.map Notice.line = [line] ∧
          namesOn names = ids ∧
          (∀ order : List String, order.Perm ids → namesOn (", ".intercalate order) = order) ∧
          ids.Nodup ∧
          (∀ id, id ∈ ids ↔ n.registry.contains id = true ∧ left.contains id = false) ∧
          ids.length + left.size = n.registry.size ∧
          SweepReport.ofLine? line = some ⟨ids, ids.length, left.size⟩ := by
  intro n
  have hwords : n.registry.NamedByWords :=
    Session.namedByWords_run (fun id hid => absurd hid List.not_mem_nil) hlines
  refine ⟨hwords, ?_⟩
  intro maxAge ids hresult hne left names line
  obtain ⟨cutoff, rfl, hleft⟩ := Node.exists_of_sweep hresult
  have hleft : left = n.registry.prune cutoff := hleft
  have hword : ∀ id ∈ n.registry.stale cutoff, IsWord id.toList := by
    intro id hid
    exact hwords id (n.registry.mem_ids_iff.2 (n.registry.contains_of_mem_stale hid))
  -- to tell the ids apart it is enough that they are words, in whatever order they stand
  have hread {order : List String} (horder : order.Perm (n.registry.stale cutoff)) :
      namesOn (", ".intercalate order) = order := by
    refine namesOn_listing ?_ ?_
    · rintro rfl
      exact hne horder.nil_eq.symm
    · intro id hid
      exact (hword id (horder.mem_iff.1 hid)).blankFree.uncut
  have hline : (Notice.sweptAway (n.registry.stale cutoff) left.size).line = line :=
    Notice.line_sweptAway
  refine ⟨?_, hread (.refl _), fun order => hread, n.registry.nodup_stale cutoff, ?_, ?_, ?_⟩
  · rw [Node.log_sweep hresult hne, List.map_singleton, hline]
  · rw [hleft]
    exact n.registry.mem_stale_iff_contains cutoff
  · rw [hleft]
    exact n.registry.length_stale_add_size cutoff
  · rw [← hline]
    exact SweepReport.ofLine?_line hne hword

/-- Ids that begin or end with a comma, the last one on the line among them, after an upsert that
breaks off on a clock before 1970. -/
theorem sweep_log_reads_back_with_commas :
    let actions : List Action := [.line "upsert a, x", .setClock (-1), .line "upsert d y",
      .setClock 3000000000, .line "upsert ,b z", .setClock 9000000000, .line " upsert c\r\n"]
    let n := ((Session.start ⟨0, 0, 0⟩).run actions).2.node
    let line := "INFO dropped stale peers: ,b, a, dropped_count=2 remaining=1"
    (∀ a ∈ actions, a.TracksByLine) ∧
      (n.sweep (Age.ofSeconds 5)).result = .ok [",b", "a,"] ∧
      (n.sweep (Age.ofSeconds 5)).log.map Notice.line = [line] ∧
      namesOn ",b, a," = [",b", "a,"] ∧
      SweepReport.ofLine? line = some ⟨[",b", "a,"], 2, 1⟩ := by
  intro actions n line
  have hlines : ∀ a ∈ actions, a.TracksByLine := by simp [actions, Action.TracksByLine]
  have hresult : (n.sweep (Age.ofSeconds 5)).result = .ok [",b", "a,"] := by decide +kernel
  have hsize : (n.sweep (Age.ofSeconds 5)).node.registry.size = 1 := by decide +kernel
  obtain ⟨-, hsweep⟩ := sweep_log_reads_back ⟨0, 0, 0⟩ hlines
  obtain ⟨hlog, hnames, -, -, -, -, hreport⟩ := hsweep _ _ hresult (List.cons_ne_nil _ _)
  rw [hsize] at hlog hreport
  exact ⟨hlines, hresult, hlog, hnames, hreport⟩

end Presence
