/-
Presence/Proofs/SweepAndPrune.lean

What a sweep drops, and that a prune on the console drops the same.

A sweep takes an age off the time that the clock shows, and forgets who was last
seen before the cutoff.  In exact arithmetic these are the peers with

    now - lastSeen  >  age

and nobody else (`sweep_drops_exactly_the_older`).  The cutoff itself is never
seen: where the difference would lie before the earliest instant, and where the
age is too long to be taken off at all, nobody is that old.

A line `prune secs` gets to the same operation by another way, through the words
of the line and the number that the second one stands for.  It leaves the node
that a sweep leaves, breaks off on the same clocks, and tells the ids that the
sweep gives (`prune_line_is_a_sweep`).  What is left to the two are their notices.
-/
import Presence.Proofs.Cutoff
import Presence.Proofs.Effect
import Presence.Proofs.IdLists
import Presence.Proofs.TrackedIds
import Presence.Proofs.WordLines

namespace Presence

open Text

/-! ### Who is too old -/

/-- At the time `now` the peer was last seen longer ago than the age. -/
def Sighting.OlderThan (x : Sighting) (age : Age) (now : Instant) : Prop :=
  (age.toNanos : Int) < now.toNanos - x.lastSeen.toNanos

section

variable {now : Instant} {age : Age} {x : Sighting}

theorem Sighting.olderThan_iff (hnow : now.InRange) (hx : x.lastSeen.InRange)
    (hage : age.Ordinary) : x.OlderThan age now ↔ x.lastSeen < cutoffBefore now age :=
  (lt_cutoffBefore_iff hnow hx hage).symm

/-- Who is as old as the age is not older. -/
theorem Sighting.not_olderThan_of_eq (h : now.toNanos - x.lastSeen.toNanos = age.toNanos) :
    ¬ x.OlderThan age now := by
  unfold OlderThan
  omega

/-- Who was seen later than it is now is not older than any age. -/
theorem Sighting.not_olderThan_of_lt (hnow : now.InRange) (hx : x.lastSeen.InRange)
    (h : now < x.lastSeen) : ¬ x.OlderThan age now := by
  have hlt := (Instant.toNanos_lt_toNanos hnow.ordinary hx.ordinary).2 h
  unfold OlderThan
  omega

end

/-- The cutoff parts the older peers from the others. -/
theorem Registry.mem_stale_cutoffBefore_iff {r : Registry} {now : Instant} {age : Age}
    (hseen : ∀ id x, r.get? id = some x → x.lastSeen.InRange) (hnow : now.InRange)
    (hage : age.Ordinary) (id : String) :
    id ∈ r.stale (cutoffBefore now age) ↔ ∃ x, r.get? id = some x ∧ x.OlderThan age now := by
  rw [mem_stale_iff]
  constructor
  · rintro ⟨x, hx, hlt⟩
    exact ⟨x, hx, (Sighting.olderThan_iff hnow (hseen id x hx) hage).2 hlt⟩
  · rintro ⟨x, hx, hold⟩
    exact ⟨x, hx, (Sighting.olderThan_iff hnow (hseen id x hx) hage).1 hold⟩

/-- With a clock that can be read, a sweep gives the peers before the cutoff and forgets them. -/
theorem Node.sweep_of_now? {n : Node} {now : Instant} (hnow : n.clock.now? = some now)
    (maxAge : Age) :
    (n.sweep maxAge).result = .ok (n.registry.stale (cutoffBefore now maxAge)) ∧
      (n.sweep maxAge).node =
        { n.tick with registry := n.registry.prune (cutoffBefore now maxAge) } := by
  rw [result_sweep, node_sweep, dropOlderThan_eq, n.reading_of_now? _ hnow]
  exact ⟨rfl, rfl⟩

/-- No sweep gives an id twice. -/
theorem Node.nodup_of_sweep {n : Node} {maxAge : Age} {ids : List String}
    (h : (n.sweep maxAge).result = .ok ids) : ids.Nodup := by
  obtain ⟨cutoff, rfl, -⟩ := Node.exists_of_sweep h
  exact n.registry.nodup_stale cutoff

/-- **A sweep drops exactly the peers that are too old.**  It gives each of them once, forgets
them, and leaves the others as they are; a peer whose age is the greatest that is allowed stays,
and so does one that is seen in the future. -/
theorem sweep_drops_exactly_the_older {n : Node} {now : Instant} {maxAge : Age}
    (hnow : n.clock.now? = some now)
    (hseen : ∀ id x, n.registry.get? id = some x → x.lastSeen.InRange)
    (hage : maxAge.Ordinary) :
    ∃ ids, (n.sweep maxAge).result = .ok ids ∧ ids.Nodup ∧
      (∀ id, id ∈ ids ↔ ∃ x, n.registry.get? id = some x ∧ x.OlderThan maxAge now) ∧
      (∀ id, (n.sweep maxAge).node.registry.get? id =
        if id ∈ ids then none else n.registry.get? id) ∧
      ∀ id x, n.registry.get? id = some x →
        now.toNanos - x.lastSeen.toNanos = maxAge.toNanos ∨ now < x.lastSeen →
        (n.sweep maxAge).node.registry.get? id = some x := by
  obtain ⟨hresult, hnode⟩ := Node.sweep_of_now? hnow maxAge
  obtain ⟨hrange, -⟩ := Clock.inRange_of_now? hnow
  have hmem := Registry.mem_stale_cutoffBefore_iff hseen hrange hage
  have hget (id : String) := n.registry.get?_prune_eq_ite (cutoffBefore now maxAge) id
  refine ⟨_, hresult, n.registry.nodup_stale _, hmem, ?_, ?_⟩
  · intro id
    rw [hnode]
    exact hget id
  · intro id x hx hkept
    have hyoung : ¬ x.OlderThan maxAge now := by
      rcases hkept with heq | hlater
      · exact Sighting.not_olderThan_of_eq heq
      · exact Sighting.not_olderThan_of_lt hrange (hseen id x hx) hlater
    have hnot : id ∉ n.registry.stale (cutoffBefore now maxAge) := by
      rw [hmem]
      rintro ⟨y, hy, hold⟩
      obtain rfl := Option.some.inj (hx.symm.trans hy)
      exact hyoung hold
    rw [hnode]
    exact (hget id).trans ((if_neg hnot).trans hx)

/-- A peer seen at the earliest instant is dropped when it is older by a nanosecond; one seen a
nanosecond later, and one that is seen in the future, stay. -/
theorem sweep_drops_exactly_the_older_at_the_earliest :
    let n : Node :=
      { registry := Registry.ofList [("a", ⟨"x", Instant.earliest⟩),
          ("b", ⟨"y", ⟨-8334601228800, 1⟩⟩), ("c", ⟨"z", ⟨1, 0⟩⟩)]
        clock := ⟨0, 0, 0⟩ }
    let maxAge : Age := ⟨8334601228799, 999999999⟩
    n.clock.now? = some ⟨0, 0⟩ ∧ maxAge.Ordinary ∧
      (∀ id x, n.registry.get? id = some x → x.lastSeen.InRange) ∧
      (n.sweep maxAge).result = .ok ["a"] ∧
      (n.sweep maxAge).node.registry.get? "a" = none ∧
      (n.sweep maxAge).node.registry.get? "b" = some ⟨"y", ⟨-8334601228800, 1⟩⟩ ∧
      (n.sweep maxAge).node.registry.get? "c" = some ⟨"z", ⟨1, 0⟩⟩ := by
  intro n maxAge
  have hnow : n.clock.now? = some ⟨0, 0⟩ := by decide
  have hage : maxAge.Ordinary := by
    unfold Age.Ordinary
    decide
  have hentries : n.registry.entries = [("a", ⟨"x", Instant.earliest⟩),
      ("b", ⟨"y", ⟨-8334601228800, 1⟩⟩), ("c", ⟨"z", ⟨1, 0⟩⟩)] := by
    decide +kernel
  have hseen : ∀ id x, n.registry.get? id = some x → x.lastSeen.InRange := by
    intro id x hx
    have hmem := n.registry.mem_entries_iff.2 hx
    rw [hentries] at hmem
    simp only [List.mem_cons, Prod.mk.injEq, List.not_mem_nil, or_false] at hmem
    rcases hmem with ⟨-, rfl⟩ | ⟨-, rfl⟩ | ⟨-, rfl⟩
    all_goals
      refine ⟨?_, by decide, by decide⟩
      unfold Instant.Ordinary
      decide
  have hresult : (n.sweep maxAge).result = .ok ["a"] := by decide +kernel
  obtain ⟨ids, hids, -, -, hforgets, hstays⟩ := sweep_drops_exactly_the_older hnow hseen hage
  obtain rfl := Except.ok.inj (hids.symm.trans hresult)
  refine ⟨hnow, hage, hseen, hresult, hforgets "a", ?_, ?_⟩
  · exact hstays "b" _ (by decide +kernel) (Or.inl (by decide))
  · exact hstays "c" _ (by decide +kernel) (Or.inr (by decide))

/-! ### Prunes on the console -/

/-- A sweep breaks off exactly if the clock cannot be read. -/
theorem Node.exists_sweep_error_iff (n : Node) (maxAge : Age) :
    (∃ f, (n.sweep maxAge).result = .error f) ↔ ¬ n.clock.Readable := by
  rw [result_sweep, dropOlderThan, result_reading, ← Clock.now?_eq_none_iff]
  rcases n.clock.now? with - | now <;> simp

/-- A line that prunes drops the older peers, and its reply is what the drop gives. -/
theorem Node.respond_of_prune (n : Node) {line : String} {maxAge : Age}
    (h : Command.parse line = .ok (some (.prune maxAge))) :
    (n.respond line).node = (n.sweep maxAge).node ∧
      (n.respond line).result = (n.sweep maxAge).result.map fun ids => some (.pruned ids) := by
  rw [respond, h, result_sweep, node_sweep]
  refine ⟨?_, ?_⟩
  · simp [Command.run]
  · simp only [Command.run, Outcome.result_map, Outcome.result_logging]
    rcases (n.dropOlderThan maxAge).result with f | ids <;> rfl

/-- **A line that prunes is a sweep**, whatever blanks and line ends are on the line and however the
number of seconds is written.  It breaks off on the same clocks and leaves the same node, and the
user is told, as an array of texts, the ids that the sweep gives. -/
theorem prune_line_is_a_sweep (n : Node) {line secs : String} {N : Nat}
    (hline : LaidOut ["prune", secs] line.toList) (hsecs : Numeral N secs.toList)
    (hN : N < UInt64.size) :
    (n.respond line).node = (n.sweep (Age.ofSeconds N)).node ∧
      (∀ f, (n.respond line).result = .error f ↔
        (n.sweep (Age.ofSeconds N)).result = .error f) ∧
      ((∃ f, (n.sweep (Age.ofSeconds N)).result = .error f) ↔ ¬ n.clock.Readable) ∧
      ∀ ids, (n.sweep (Age.ofSeconds N)).result = .ok ids →
        ids.Nodup ∧ ∃ text,
          (n.respond line).result.map (Option.map Reply.text) = .ok (some text) ∧
            Json.idsOf text = .ok ids := by
  have hparse : Command.parse line = .ok (some (.prune (Age.ofSeconds N))) :=
    Command.parse_of_readAs (.prune secs N hsecs hN) hline
  obtain ⟨hnode, hresult⟩ := n.respond_of_prune hparse
  refine ⟨hnode, ?_, n.exists_sweep_error_iff _, ?_⟩
  · intro f
    rw [hresult]
    rcases (n.sweep (Age.ofSeconds N)).result with f' | ids <;> simp [Except.map]
  · intro ids hids
    refine ⟨Node.nodup_of_sweep hids, _, ?_, Json.idsOf_stringArray ids⟩
    rw [hresult, hids]
    rfl

/-- An age with a plus sign and zeros in front, blanks beyond ASCII and line ends, and a peer whose
id needs to be escaped. -/
theorem prune_line_is_a_sweep_of_odd_numeral :
    let n : Node :=
      { registry := Registry.ofList [("a\",]", ⟨"x", ⟨1, 0⟩⟩), ("b", ⟨"y", ⟨2, 0⟩⟩)]
        clock := ⟨5000000000, 1, 0⟩ }
    let line := "\tprune \u2003+0003 \r\n"
    LaidOut ["prune", "+0003"] line.toList ∧ Numeral 3 "+0003".toList ∧
      (n.sweep (Age.ofSeconds 3)).result = .ok ["a\",]"] ∧
      (n.respond line).node = (n.sweep (Age.ofSeconds 3)).node ∧
      ∃ text, (n.respond line).result.map (Option.map Reply.text) = .ok (some text) ∧
        Json.idsOf text = .ok ["a\",]"] := by
  intro n line
  have hline : LaidOut ["prune", "+0003"] line.toList := laidOut_iff_words.2 (by decide +kernel)
  have hnumeral : Numeral 3 "+0003".toList :=
    ⟨"0003".toList, ⟨List.cons_ne_nil _ _, List.all_eq_true.1 (by decide), by decide⟩, Or.inr rfl⟩
  have hresult : (n.sweep (Age.ofSeconds 3)).result = .ok ["a\",]"] := by decide +kernel
  obtain ⟨hnode, -, -, htold⟩ := prune_line_is_a_sweep n hline hnumeral (by decide)
  exact ⟨hline, hnumeral, hresult, hnode, (htold _ hresult).2⟩

end Presence
