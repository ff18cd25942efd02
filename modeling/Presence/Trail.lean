/-
Presence/Trail.lean

Lists that grow at their end.

What comes last is at hand, so adding a piece takes time in the length of the
piece alone, however long the trail has become.  `toList` gives the elements in
the order in which they came, and says all there is to say about a trail.
-/

namespace Presence

/-- Elements that have come one after the other. -/
structure Trail (α : Type) where
  /-- The elements, the last one first. -/
  latest : List α
  deriving DecidableEq, Repr

namespace Trail

variable {α : Type}

/-- Nothing has come. -/
def empty : Trail α := ⟨[]⟩

/-- The elements in the order in which they came. -/
def toList (t : Trail α) : List α := t.latest.reverse

/-- The trail with further elements behind those that it has. -/
def append (t : Trail α) (l : List α) : Trail α := ⟨l.reverseAux t.latest⟩

@[simp] theorem toList_empty : (empty : Trail α).toList = [] := rfl

@[simp] theorem toList_append (t : Trail α) (l : List α) :
    (t.append l).toList = t.toList ++ l := by
  simp [toList, append, List.reverseAux_eq]

end Trail

end Presence
