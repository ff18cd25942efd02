/-
Presence/Proofs/Lookup.lean

What a look-up finds after each operation of a registry.

The ids of a registry ascend, so an id stands at most once in it and `find?` is
membership (`find?_eq_some_iff`).  Hence one equation for each operation:

* `get?_insert` — the id that was placed has its new sighting, all others theirs;
* `get?_filter` — a test is applied to the sighting under the id, and with it
  `get?_erase` and `get?_prune`;
* `mem_stale_iff` — the ids that a prune gives are those it forgets.

Nothing further needs to open the list of entries.
-/
import Presence.Registry

namespace Presence

namespace Registry

variable {id key : String} {s : Sighting} {l : List (String × Sighting)}

/-! ### Looking up is membership -/

theorem mem_of_find? (h : find? id l = some s) : (id, s) ∈ l := by
  induction l with
  | nil => simp [find?] at h
  | cons e rest ih =>
    obtain ⟨key, t⟩ := e
    by_cases hk : key = id
    · rw [find?, if_pos hk] at h
      obtain rfl := Option.some.inj h
      rw [hk]
      exact List.mem_cons_self
    · rw [find?, if_neg hk] at h
      exact List.mem_cons_of_mem _ (ih h)

theorem find?_of_mem (hl : Ascending l) (h : (id, s) ∈ l) : find? id l = some s := by
  induction l with
  | nil => simp at h
  | cons e rest ih =>
    obtain ⟨key, t⟩ := e
    obtain ⟨hkey, hrest⟩ := List.pairwise_cons.1 hl
    rcases List.mem_cons.1 h with heq | hmem
    · obtain ⟨rfl, rfl⟩ := Prod.mk.inj heq
      simp [find?]
    · -- the ids behind the first one are greater, so the first one is another
      have hne : key ≠ id := by
        intro heq
        exact String.lt_irrefl _ (heq ▸ hkey (id, s) hmem)
      rw [find?, if_neg hne]
      exact ih hrest hmem

theorem find?_eq_some_iff (hl : Ascending l) : find? id l = some s ↔ (id, s) ∈ l :=
  ⟨mem_of_find?, find?_of_mem hl⟩

/-! ### After placing a sighting -/

theorem find?_place_self (id : String) (s : Sighting) (l : List (String × Sighting)) :
    find? id (place id s l) = some s := by
  induction l with
  | nil => simp [place, find?]
  | cons e rest ih =>
    obtain ⟨key, t⟩ := e
    simp only [place]
    split
    · simp [find?]
    · split
      · simp [find?]
      · next hne => rw [find?, if_neg (Ne.symm hne), ih]

theorem find?_place_of_ne (h : key ≠ id) (s : Sighting) (l : List (String × Sighting)) :
    find? id (place key s l) = find? id l := by
  induction l with
  | nil => simp [place, find?, h]
  | cons e rest ih =>
    obtain ⟨other, t⟩ := e
    simp only [place]
    split
    · rw [find?, if_neg h]
    · split
      · next heq => rw [find?, if_neg h, find?, if_neg (heq ▸ h)]
      · rw [find?, find?, ih]

/-! ### After keeping what passes a test -/

theorem find?_filter (hl : Ascending l) (keep : String → Sighting → Bool) :
    find? id (l.filter fun e => keep e.1 e.2) = (find? id l).filter (keep id) := by
  ext s
  rw [find?_eq_some_iff (hl.filter _), List.mem_filter, Option.filter_eq_some_iff,
    find?_eq_some_iff hl]

/-! ### The operations of a registry -/

variable (r : Registry)

@[simp] theorem get?_empty (id : String) : empty.get? id = none := rfl

theorem get?_insert (id key : String) (s : Sighting) :
    (r.insert key s).get? id = if key = id then some s else r.get? id := by
  by_cases h : key = id
  · subst h
    rw [if_pos rfl]
    exact find?_place_self key s r.entries
  · rw [if_neg h]
    exact find?_place_of_ne h s r.entries

theorem get?_filter (keep : String → Sighting → Bool) (id : String) :
    (r.filter keep).get? id = (r.get? id).filter (keep id) :=
  find?_filter r.ascending keep

theorem get?_erase (id key : String) :
    (r.erase key).get? id = if key = id then none else r.get? id := by
  rw [erase, get?_filter]
  by_cases h : key = id
  · rw [if_pos h]
    rcases r.get? id with - | s <;> simp [h]
  · rw [if_neg h]
    rcases r.get? id with - | s <;> simp [Ne.symm h]

theorem get?_prune (cutoff : Instant) (id : String) :
    (r.prune cutoff).get? id = (r.get? id).filter fun s => ¬ s.lastSeen < cutoff :=
  get?_filter r _ id

/-- A prune gives the ids of the peers that it forgets. -/
theorem mem_stale_iff (cutoff : Instant) (id : String) :
    id ∈ r.stale cutoff ↔ ∃ s, r.get? id = some s ∧ s.lastSeen < cutoff := by
  constructor
  · intro h
    obtain ⟨e, he, rfl⟩ := List.mem_map.1 h
    obtain ⟨hmem, hlt⟩ := List.mem_filter.1 he
    exact ⟨e.2, find?_of_mem r.ascending hmem, by simpa using hlt⟩
  · rintro ⟨s, hs, hlt⟩
    refine List.mem_map.2 ⟨(id, s), List.mem_filter.2 ⟨mem_of_find? hs, ?_⟩, rfl⟩
    simpa using hlt

end Registry

end Presence
