/-
Presence/Proofs/Reading.lean

What a reader takes from the front of a text.

A reader is a state monad over the characters that are left, and it can fail.  It
`Reads` a front where it takes exactly this front, given what comes behind, and
gives a certain value.  What comes behind is part of the statement because a
reader may look at it, as one of digits does.

A reader made of others in sequence reads what they read, one after the other
(`Reads.bind`); so the readings of a format follow its layout.
-/

namespace Presence

variable {m : Type → Type} [Monad m] {α β : Type}

/-- From a text that begins with `front` and goes on with `rest` the reader takes `front`, and it
gives `a`. -/
def Reads (x : StateT (List Char) m α) (front : List Char) (a : α) (rest : List Char) : Prop :=
  x (front ++ rest) = pure (a, rest)

namespace Reads

variable {x : StateT (List Char) m α} {k : α → StateT (List Char) m β}
  {front more rest : List Char} {a : α} {b : β}

theorem pure : Reads (Pure.pure a : StateT (List Char) m α) [] a rest := rfl

/-- A reader may say what is left. -/
theorem set : Reads (MonadStateOf.set rest : StateT (List Char) m PUnit) front ⟨⟩ rest := rfl

variable [LawfulMonad m]

/-- Two readings in sequence. -/
theorem bind (hx : Reads x front a (more ++ rest)) (hk : Reads (k a) more b rest) :
    Reads (x >>= k) (front ++ more) b rest := by
  show x (front ++ more ++ rest) >>= (fun p => k p.1 p.2) = _
  rw [List.append_assoc, hx, pure_bind]
  exact hk

/-- A reading that takes nothing, in front of another one. -/
theorem ahead (hx : Reads x [] a (front ++ rest)) (hk : Reads (k a) front b rest) :
    Reads (x >>= k) front b rest :=
  hx.bind hk

/-- A reading behind which nothing more is taken. -/
theorem last (hx : Reads x front a rest) (hk : Reads (k a) [] b rest) :
    Reads (x >>= k) front b rest := by
  rw [← List.append_nil front]
  exact hx.bind hk

/-- A reading of which a value is made. -/
theorem map (f : α → β) (hx : Reads x front a rest) :
    Reads (x >>= fun a => Pure.pure (f a)) front (f a) rest :=
  hx.last pure

/-- A reader may look at what is left before it goes on. -/
theorem get {k : List Char → StateT (List Char) m β} (h : Reads (k (front ++ rest)) front b rest) :
    Reads (MonadState.get >>= k) front b rest := by
  show Pure.pure (front ++ rest, front ++ rest) >>= (fun p => k p.1 p.2) = _
  rw [pure_bind]
  exact h

end Reads

end Presence
