/-
Presence/Registry.lean

The registry of peers: who is tracked, with what content, and when last seen.

A `Registry` holds one `Sighting` for each tracked id, in ascending order of the
ids by code points.  The order is part of the type, so two registries with the
same look-ups are equal, and a listing has only one form.

Pruning at a cutoff drops every peer last seen strictly before it; one seen
exactly at the cutoff stays.
-/
import Presence.Time.Instant

namespace Presence

/-- What is known of a peer. -/
structure Sighting where
  /-- Text that the caller attached; it has no meaning here. -/
  content : String
  /-- When the peer was last seen. -/
  lastSeen : Instant
  deriving DecidableEq, Repr

/-- Ascending by id, no id twice. -/
def Ascending (entries : List (String × Sighting)) : Prop :=
  entries.Pairwise fun a b => a.1 < b.1

/-- The tracked peers, in ascending order of their ids. -/
structure Registry where
  /-- Ids with their sightings. -/
  entries : List (String × Sighting)
  /-- The ids ascend. -/
  ascending : Ascending entries

namespace Registry

@[ext] theorem ext {r s : Registry} (h : r.entries = s.entries) : r = s := by
  cases r; cases s; cases h; rfl

instance : DecidableEq Registry := fun r s =>
  decidable_of_iff (r.entries = s.entries) ⟨ext, congrArg entries⟩

/-- No peer is tracked. -/
def empty : Registry := ⟨[], List.Pairwise.nil⟩

/-- How many peers are tracked. -/
def size (r : Registry) : Nat := r.entries.length

/-- No peer is tracked. -/
def isEmpty (r : Registry) : Bool := r.entries.isEmpty

/-- The tracked ids, ascending. -/
def ids (r : Registry) : List String := r.entries.map (·.1)

/-! ### Looking up -/

/-- The first sighting under an id. -/
def find? (id : String) : List (String × Sighting) → Option Sighting
  | [] => none
  | (key, s) :: rest => if key = id then some s else find? id rest

/-- The sighting of a peer, if it is tracked. -/
def get? (r : Registry) (id : String) : Option Sighting := find? id r.entries

/-- The peer is tracked. -/
def contains (r : Registry) (id : String) : Bool := (r.get? id).isSome

/-! ### Adding and replacing -/

/-- Puts a sighting in its place, replacing one under the same id. -/
def place (id : String) (s : Sighting) : List (String × Sighting) → List (String × Sighting)
  | [] => [(id, s)]
  | (key, t) :: rest =>
    if id < key then (id, s) :: (key, t) :: rest
    else if id = key then (id, s) :: rest
    else (key, t) :: place id s rest

theorem fst_mem_of_mem_place {id : String} {s : Sighting} {e : String × Sighting} :
    ∀ {l : List (String × Sighting)}, e ∈ place id s l → e.1 = id ∨ e ∈ l
  | [], h => Or.inl (by simp_all [place])
  | (key, t) :: rest, h => by
    simp only [place] at h
    split at h
    · rcases List.mem_cons.1 h with rfl | h
      · exact Or.inl rfl
      · exact Or.inr h
    · split at h
      · rcases List.mem_cons.1 h with rfl | h
        · exact Or.inl rfl
        · exact Or.inr (List.mem_cons_of_mem _ h)
      · rcases List.mem_cons.1 h with rfl | h
        · exact Or.inr List.mem_cons_self
        · exact (fst_mem_of_mem_place h).imp_right (List.mem_cons_of_mem _)

theorem ascending_place (id : String) (s : Sighting) :
    ∀ {l : List (String × Sighting)}, Ascending l → Ascending (place id s l)
  | [], _ => List.pairwise_singleton _ _
  | (key, t) :: rest, h => by
    obtain ⟨hkey, hrest⟩ := List.pairwise_cons.1 h
    simp only [place]
    split
    · next hlt =>
      refine List.pairwise_cons.2 ⟨fun e he => ?_, h⟩
      rcases List.mem_cons.1 he with rfl | he
      · exact hlt
      · exact String.lt_trans hlt (hkey e he)
    · next hlt =>
      split
      · next heq => exact List.pairwise_cons.2 ⟨fun e he => heq ▸ hkey e he, hrest⟩
      · next hne =>
        refine List.pairwise_cons.2 ⟨fun e he => ?_, ascending_place id s hrest⟩
        rcases fst_mem_of_mem_place he with h' | he
        · rcases Std.lt_trichotomy key id with h'' | h'' | h''
          · exact h'.symm ▸ h''
          · exact absurd h''.symm hne
          · exact absurd h'' hlt
        · exact hkey e he

/-- Tracks a peer with a sighting, replacing the one it had. -/
def insert (id : String) (s : Sighting) (r : Registry) : Registry :=
  ⟨place id s r.entries, ascending_place id s r.ascending⟩

/-- The registry with the given sightings; of two under one id the later stays. -/
def ofList (entries : List (String × Sighting)) : Registry :=
  entries.foldl (fun r e => r.insert e.1 e.2) empty

/-! ### Removing -/

/-- The peers whose id and sighting pass a test. -/
def filter (keep : String → Sighting → Bool) (r : Registry) : Registry :=
  ⟨r.entries.filter fun e => keep e.1 e.2, r.ascending.filter _⟩

/-- Forgets a peer. -/
def erase (id : String) (r : Registry) : Registry := r.filter fun key _ => key ≠ id

/-- The tracked peers last seen before a cutoff. -/
def stale (cutoff : Instant) (r : Registry) : List String :=
  (r.filter fun _ s => s.lastSeen < cutoff).ids

/-- Forgets the peers last seen before a cutoff. -/
def prune (cutoff : Instant) (r : Registry) : Registry :=
  r.filter fun _ s => ¬ s.lastSeen < cutoff

end Registry

end Presence
