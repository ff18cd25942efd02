/-
Presence/Proofs/TrackedIds.lean

Who is tracked, apart from what is known of them.

An id stands among the ids of a registry at most once (`nodup_ids`), and exactly
if it is contained (`mem_ids_iff`).  So the size of a registry counts the contained
ids (`card_tracked`), and what an operation does to them can be said id by id:

* `contains_insert` — the placed id is contained, the others as before;
* `contains_erase` — the erased id is not, the others as before;
* `contains_prune` — those stay that a prune does not give as stale, with what is known of them
  (`get?_prune_eq_ite`).

A registry is nothing but its look-ups (`ext_get?`).
-/
import Presence.Proofs.Lookup
import Mathlib.Data.Finset.Card

namespace Presence

namespace Registry

variable (r : Registry) {id : String} {x : Sighting}

/-! ### Ids and entries -/

theorem mem_entries_iff : (id, x) ∈ r.entries ↔ r.get? id = some x :=
  (find?_eq_some_iff r.ascending).symm

theorem contains_iff : r.contains id = true ↔ ∃ x, r.get? id = some x :=
  Option.isSome_iff_exists

theorem contains_of_get? (h : r.get? id = some x) : r.contains id = true :=
  r.contains_iff.2 ⟨x, h⟩

theorem contains_eq_false_iff : r.contains id = false ↔ r.get? id = none := by
  rw [contains, Option.isSome_eq_false_iff, Option.isNone_iff_eq_none]

/-- The ids ascend. -/
theorem pairwise_ids : r.ids.Pairwise (· < ·) := List.pairwise_map.2 r.ascending

theorem nodup_ids : r.ids.Nodup := by
  refine r.pairwise_ids.imp ?_
  rintro id _ hlt rfl
  exact String.lt_irrefl id hlt

theorem nodup_entries : r.entries.Nodup := r.nodup_ids.of_map

theorem mem_ids_iff : id ∈ r.ids ↔ r.contains id = true := by
  rw [contains_iff]
  constructor
  · intro h
    obtain ⟨e, he, rfl⟩ := List.mem_map.1 h
    exact ⟨e.2, r.mem_entries_iff.1 he⟩
  · rintro ⟨x, hx⟩
    exact List.mem_map.2 ⟨(id, x), r.mem_entries_iff.2 hx, rfl⟩

theorem nodup_stale (cutoff : Instant) : (r.stale cutoff).Nodup := nodup_ids _

/-- Two registries with the same look-ups are the same. -/
theorem ext_get? {r s : Registry} (h : ∀ id, r.get? id = s.get? id) : r = s := by
  have hmem : ∀ e : String × Sighting, e ∈ r.entries ↔ e ∈ s.entries := by
    rintro ⟨id, x⟩
    rw [r.mem_entries_iff, s.mem_entries_iff, h]
  have hperm : r.entries.Perm s.entries :=
    (List.perm_ext_iff_of_nodup r.nodup_entries s.nodup_entries).2 hmem
  -- both stand in ascending order, so the one arrangement is the other
  refine ext (hperm.eq_of_pairwise ?_ r.ascending s.ascending)
  intro a b _ _ hab hba
  exact absurd hba (String.lt_asymm hab)

/-! ### After an operation -/

theorem contains_insert (key : String) (x : Sighting) (id : String) :
    (r.insert key x).contains id = (decide (key = id) || r.contains id) := by
  rw [contains, get?_insert]
  by_cases h : key = id
  · simp [h]
  · simp [h, contains]

theorem contains_erase (key id : String) :
    (r.erase key).contains id = (!decide (key = id) && r.contains id) := by
  rw [contains, get?_erase]
  by_cases h : key = id
  · simp [h]
  · simp [h, contains]

/-- A prune forgets those that it gives as stale, and leaves the others as they are. -/
theorem get?_prune_eq_ite (cutoff : Instant) (id : String) :
    (r.prune cutoff).get? id = if id ∈ r.stale cutoff then none else r.get? id := by
  rw [get?_prune]
  rcases hx : r.get? id with - | x
  · rw [Option.filter_none, ite_self]
  · have hstale : id ∈ r.stale cutoff ↔ x.lastSeen < cutoff := by
      simp [mem_stale_iff, hx]
    by_cases hlt : x.lastSeen < cutoff
    · rw [if_pos (hstale.2 hlt)]
      simp [hlt]
    · rw [if_neg (mt hstale.1 hlt)]
      simp [hlt]

theorem contains_prune (cutoff : Instant) (id : String) :
    (r.prune cutoff).contains id = (!decide (id ∈ r.stale cutoff) && r.contains id) := by
  rw [contains, get?_prune_eq_ite]
  by_cases hstale : id ∈ r.stale cutoff
  · simp [hstale]
  · simp [hstale, contains]

theorem contains_of_mem_stale {cutoff : Instant} (h : id ∈ r.stale cutoff) :
    r.contains id = true := by
  obtain ⟨x, hx, -⟩ := (r.mem_stale_iff cutoff id).1 h
  exact r.contains_of_get? hx

/-- A prune gives those who are there before it and not afterwards. -/
theorem mem_stale_iff_contains (cutoff : Instant) (id : String) :
    id ∈ r.stale cutoff ↔ r.contains id = true ∧ (r.prune cutoff).contains id = false := by
  rw [contains_prune]
  constructor
  · intro h
    exact ⟨r.contains_of_mem_stale h, by simp [h]⟩
  · rintro ⟨hbefore, hafter⟩
    simpa [hbefore] using hafter

/-! ### How many -/

/-- The set of the tracked ids. -/
def tracked : Finset String := r.ids.toFinset

@[simp] theorem mem_tracked : id ∈ r.tracked ↔ r.contains id = true := by
  rw [tracked, List.mem_toFinset, mem_ids_iff]

theorem card_tracked : r.tracked.card = r.size := by
  rw [tracked, List.toFinset_card_of_nodup r.nodup_ids, ids, List.length_map, size]

end Registry

end Presence
