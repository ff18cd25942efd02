/-
Presence/Proofs/RepeatedPrunes.lean

Prunes one after the other.

A prune parts the peers: it gives the ids of those seen before its cutoff, and the
others stay as they are (`perm_ids_prune`).  A further prune parts those who stay.
So after any number of prunes

    the lists that they gave  ++  the ids of those who are left   ~   all ids

(`perm_ids_pruneEach`), and left are the peers that were seen before none of the
cutoffs (`get?_pruneEach_eq_some_iff`).  Of the cutoffs only the latest counts,
since who was seen before any of them was seen before that one
(`pruneEach_eq_prune`).

Main result: prunes at any cutoffs, one at least, come to the one prune at the
latest of them, and their lists to its list in another order (`prunes_collapse`).
-/
import Presence.Proofs.Effect
import Presence.Proofs.TrackedIds

namespace Presence

/-! ### The latest of some instants -/

namespace Instant

variable {s t u : Instant} {l : List Instant}

theorem lt_irrefl (t : Instant) : ¬ t < t := by
  rw [lt_iff]
  omega

theorem lt_trans (h : s < t) (h' : t < u) : s < u := by
  rw [lt_iff] at *
  omega

/-- What lies before an instant lies before all those that are not earlier than it. -/
theorem lt_of_lt_of_not_lt (h : s < t) (h' : ¬ u < t) : s < u := by
  rw [lt_iff] at *
  omega

/-- The instant is one of these, and none of them is later. -/
structure IsLatest (t : Instant) (l : List Instant) : Prop where
  mem : t ∈ l
  not_lt : ∀ c ∈ l, ¬ t < c

theorem exists_isLatest (first : Instant) (rest : List Instant) :
    ∃ t, IsLatest t (first :: rest) := by
  induction rest generalizing first with
  | nil => exact ⟨first, List.mem_cons_self, by simp [lt_irrefl]⟩
  | cons second rest ih =>
    obtain ⟨t, hmem, hnot⟩ := ih second
    by_cases hlt : t < first
    · -- the first one is later than the latest of the others, hence than all of them
      refine ⟨first, List.mem_cons_self, List.forall_mem_cons.2 ⟨lt_irrefl first, ?_⟩⟩
      intro c hc hfirst
      exact hnot c hc (lt_trans hlt hfirst)
    · exact ⟨t, List.mem_cons_of_mem _ hmem, List.forall_mem_cons.2 ⟨hlt, hnot⟩⟩

/-- To lie before one of some instants is to lie before the latest of them. -/
theorem IsLatest.lt_iff_exists (h : IsLatest t l) : s < t ↔ ∃ c ∈ l, s < c := by
  constructor
  · intro hs
    exact ⟨t, h.mem, hs⟩
  · rintro ⟨c, hc, hs⟩
    exact lt_of_lt_of_not_lt hs (h.not_lt c hc)

end Instant

/-! ### Prunes of a registry -/

namespace Registry

/-- The registry after a prune at each of the cutoffs in turn. -/
def pruneEach (r : Registry) (cutoffs : List Instant) : Registry :=
  cutoffs.foldl (fun r cutoff => r.prune cutoff) r

/-- What each of these prunes gives. -/
def staleEach (r : Registry) : (cutoffs : List Instant) → List (List String)
  | [] => []
  | cutoff :: rest => r.stale cutoff :: (r.prune cutoff).staleEach rest

variable (r : Registry)

theorem pruneEach_cons (cutoff : Instant) (rest : List Instant) :
    r.pruneEach (cutoff :: rest) = (r.prune cutoff).pruneEach rest := rfl

/-- A prune leaves those who were not seen before its cutoff. -/
theorem get?_prune_eq_some_iff (cutoff : Instant) (id : String) (x : Sighting) :
    (r.prune cutoff).get? id = some x ↔ r.get? id = some x ∧ ¬ x.lastSeen < cutoff := by
  rw [get?_prune, Option.filter_eq_some_iff, decide_eq_true_eq]

/-- A prune names those who go, and the others stay. -/
theorem perm_ids_prune (cutoff : Instant) :
    (r.stale cutoff ++ (r.prune cutoff).ids).Perm r.ids := by
  have hparted := List.filter_append_perm
    (fun e : String × Sighting => decide (e.2.lastSeen < cutoff)) r.entries
  have hnames := hparted.map Prod.fst
  rw [List.map_append] at hnames
  simpa [stale, prune, filter, ids] using hnames

/-- The numbers of those who go and of those who stay add up. -/
theorem length_stale_add_size (cutoff : Instant) :
    (r.stale cutoff).length + (r.prune cutoff).size = r.size := by
  have hlength := (r.perm_ids_prune cutoff).length_eq
  simpa [ids, size] using hlength

/-! ### One after the other -/

theorem get?_pruneEach_eq_some_iff (cutoffs : List Instant) (id : String) (x : Sighting) :
    (r.pruneEach cutoffs).get? id = some x ↔
      r.get? id = some x ∧ ∀ c ∈ cutoffs, ¬ x.lastSeen < c := by
  induction cutoffs generalizing r with
  | nil => simp [pruneEach]
  | cons cutoff rest ih =>
    rw [pruneEach_cons, ih, get?_prune_eq_some_iff, List.forall_mem_cons, and_assoc]

theorem perm_ids_pruneEach (cutoffs : List Instant) :
    ((r.staleEach cutoffs).flatten ++ (r.pruneEach cutoffs).ids).Perm r.ids := by
  induction cutoffs generalizing r with
  | nil => exact List.Perm.refl _
  | cons cutoff rest ih =>
    rw [staleEach, pruneEach_cons, List.flatten_cons, List.append_assoc]
    exact ((ih (r.prune cutoff)).append_left _).trans (r.perm_ids_prune cutoff)

/-- Of all cutoffs the latest is what counts. -/
theorem pruneEach_eq_prune {cutoffs : List Instant} {latest : Instant}
    (h : latest.IsLatest cutoffs) : r.pruneEach cutoffs = r.prune latest := by
  refine ext_get? fun id => Option.ext fun x => ?_
  rw [get?_pruneEach_eq_some_iff, get?_prune_eq_some_iff, h.lt_iff_exists]
  simp

/-- The prunes give those whom the prune at the latest cutoff gives. -/
theorem perm_staleEach {cutoffs : List Instant} {latest : Instant}
    (h : latest.IsLatest cutoffs) : (r.staleEach cutoffs).flatten.Perm (r.stale latest) := by
  have hparted := (r.perm_ids_pruneEach cutoffs).trans (r.perm_ids_prune latest).symm
  rw [r.pruneEach_eq_prune h] at hparted
  exact (List.perm_append_right_iff _).1 hparted

/-- Who was seen at a cutoff stays until a later one, and behind that an earlier one finds nobody. -/
example : (ofList [("a", ⟨"x", ⟨1, 0⟩⟩), ("b", ⟨"y", ⟨4, 0⟩⟩), ("c", ⟨"z", ⟨5, 0⟩⟩)]).staleEach
    [⟨4, 0⟩, ⟨5, 0⟩, ⟨3, 0⟩] = [["a"], ["b"], []] := by decide

end Registry

/-! ### Prunes in a session -/

/-- What the prunes of a session give and what they leave. -/
theorem Session.run_prunes (s : Session) (cutoffs : List Instant) :
    (s.run (cutoffs.map .prune)).1.map Step.answer =
        (s.node.registry.staleEach cutoffs).map (fun ids => .ok (.ids ids)) ∧
      (s.run (cutoffs.map .prune)).2 =
        ⟨{ s.node with registry := s.node.registry.pruneEach cutoffs }, s.held⟩ := by
  induction cutoffs generalizing s with
  | nil => exact ⟨rfl, rfl⟩
  | cons cutoff rest ih =>
    obtain ⟨hanswers, hlast⟩ := ih (s.perform (.prune cutoff)).2
    rw [s.perform_prune] at hanswers hlast
    simp only [List.map_cons, run, s.perform_prune]
    exact ⟨congrArg (List.cons _) hanswers, hlast⟩

/-- **Repeated prunes collapse.**  Prunes at any cutoffs, in any order and with repetitions, leave
the session that the one prune at the latest cutoff leaves, and all their lists together are its
list in another order.  Nobody is given twice; who has been given and who is left are together those
who were tracked before, each once; and left are, as they were, the peers that were seen before none
of the cutoffs. -/
theorem prunes_collapse (s : Session) (first : Instant) (rest : List Instant) :
    let cutoffs := first :: rest
    let last := (s.run (cutoffs.map .prune)).2
    ∃ (latest : Instant) (lists : List (List String)) (dropped : List String),
      Instant.IsLatest latest cutoffs ∧
      (s.run (cutoffs.map .prune)).1.map Step.answer = lists.map (fun ids => .ok (.ids ids)) ∧
      (s.perform (.prune latest)).1.answer = .ok (.ids dropped) ∧
      last = (s.perform (.prune latest)).2 ∧
      lists.flatten.Perm dropped ∧ lists.flatten.Nodup ∧
      (lists.flatten ++ last.node.registry.ids).Perm s.node.registry.ids ∧
      (lists.flatten ++ last.node.registry.ids).Nodup ∧
      ∀ id x, last.node.registry.get? id = some x ↔
        s.node.registry.get? id = some x ∧ ∀ c ∈ cutoffs, ¬ x.lastSeen < c := by
  intro cutoffs last
  obtain ⟨latest, hlatest⟩ := Instant.exists_isLatest first rest
  obtain ⟨hanswers, hlast⟩ := s.run_prunes cutoffs
  have hregistry : last.node.registry = s.node.registry.pruneEach cutoffs :=
    congrArg (fun t : Session => t.node.registry) hlast
  have hids := s.node.registry.perm_ids_pruneEach cutoffs
  have hlists := s.node.registry.perm_staleEach hlatest
  refine ⟨latest, _, _, hlatest, hanswers, ?_, ?_, hlists, ?_, ?_, ?_, ?_⟩
  · rw [s.perform_prune]
  · rw [Registry.pruneEach_eq_prune _ hlatest] at hlast
    rw [s.perform_prune]
    exact hlast
  · exact hlists.nodup_iff.2 (s.node.registry.nodup_stale latest)
  · rw [hregistry]
    exact hids
  · rw [hregistry]
    exact hids.nodup_iff.2 s.node.registry.nodup_ids
  · intro id x
    rw [hregistry]
    exact s.node.registry.get?_pruneEach_eq_some_iff cutoffs id x

end Presence
