/-
Presence/Proofs/Listings.lean

Names on one line, and how they are told apart again.

A line is cut into pieces if they stand on it one after the other, with a comma
and a space between any two, and none of them holds this separator (`CutInto`).
There is one such way for every line, and `parts` finds it (`parts_eq_iff`).  It
does not matter whether a piece ends in a comma or begins with a space: two
separators never overlap, so where two pieces meet there is the one that stands
between them and no other.

Hence names that hold no separator are read back from the line that lists them
(`namesOn_listing`).  A name without blanks is of this kind, however many commas
it has.
-/
import Presence.Proofs.Blanks
import Presence.Text.Listing

namespace Presence.Text

variable {p s : List Char} {c : Char} {l : List (List Char)}

/-- What stands between two names. -/
def separator : List Char := [',', ' ']

/-- No separator is inside. -/
def Uncut (p : List Char) : Prop := ¬ separator <:+: p

/-- The line is cut at every separator into these pieces. -/
structure CutInto (l : List (List Char)) (s : List Char) : Prop where
  /-- There is a piece. -/
  nonempty : l ≠ []
  /-- The pieces make up the line. -/
  joined : separator.intercalate l = s
  /-- No separator is inside a piece. -/
  uncut : ∀ p ∈ l, Uncut p

/-- The names on a line, cut at every separator. -/
def namesOn (line : String) : List String := (parts line.toList).map String.ofList

/-! ### Separators -/

theorem separator_prefix_cons_iff : separator <+: c :: s ↔ ∃ rest, c = ',' ∧ s = ' ' :: rest := by
  constructor
  · rintro ⟨rest, hrest⟩
    obtain ⟨rfl, rfl⟩ := List.cons.inj hrest
    exact ⟨rest, rfl, rfl⟩
  · rintro ⟨rest, rfl, rfl⟩
    exact ⟨rest, rfl⟩

theorem uncut_nil : Uncut [] := by
  unfold Uncut
  decide

theorem Uncut.of_cons (h : Uncut (c :: p)) : Uncut p :=
  fun hinside => h (hinside.trans (List.suffix_cons c p).isInfix)

/-- A separator has a blank, so a text without blanks is not cut. -/
theorem BlankFree.uncut (h : BlankFree p) : Uncut p := by
  intro hinside
  have hspace : ' ' ∈ p := List.IsInfix.subset hinside (by decide)
  exact absurd (h ' ' hspace) (by decide)

theorem intercalate_cons (p : List Char) (hl : l ≠ []) :
    separator.intercalate (p :: l) = p ++ (separator ++ separator.intercalate l) := by
  obtain ⟨q, l, rfl⟩ := List.exists_cons_of_ne_nil hl
  rw [List.intercalate_cons_cons, List.append_assoc]

/-! ### Every line is cut by `parts` -/

namespace CutInto

theorem nil : CutInto [[]] [] :=
  ⟨List.cons_ne_nil _ _, rfl, List.forall_mem_singleton.2 uncut_nil⟩

/-- A separator in front is one cut more. -/
theorem separator_append (h : CutInto l s) : CutInto ([] :: l) (separator ++ s) where
  nonempty := List.cons_ne_nil _ _
  joined := by rw [intercalate_cons [] h.nonempty, h.joined, List.nil_append]
  uncut := List.forall_mem_cons.2 ⟨uncut_nil, h.uncut⟩

/-- A character in front goes to the first piece, if no separator begins with it. -/
theorem cons (h : CutInto (p :: l) s) (hc : ¬ separator <+: c :: s) :
    CutInto ((c :: p) :: l) (c :: s) where
  nonempty := List.cons_ne_nil _ _
  joined := by
    rw [← h.joined]
    rcases l with - | ⟨q, l⟩ <;> simp
  uncut := by
    obtain ⟨hp, hl⟩ := List.forall_mem_cons.1 h.uncut
    refine List.forall_mem_cons.2 ⟨?_, hl⟩
    have hprefix : p <+: s := by
      rw [← h.joined]
      rcases l with - | ⟨q, l⟩ <;> simp
    intro hinside
    -- it begins with the new character, and so it does on the line, or it was there before
    rcases List.infix_cons_iff.1 hinside with hfirst | hlater
    · exact hc (hfirst.trans (List.cons_prefix_cons.2 ⟨rfl, hprefix⟩))
    · exact hp hlater

end CutInto

theorem cutInto_parts (s : List Char) : CutInto (parts s) s := by
  induction s using parts.induct with
  | case1 => exact .nil
  | case2 s ih => exact ih.separator_append
  | case3 c s hnot hnil ih => exact absurd hnil ih.nonempty
  | case4 c s hnot p ps hparts ih =>
    rw [parts.eq_3 c s hnot, hparts]
    rw [hparts] at ih
    refine ih.cons fun hc => ?_
    obtain ⟨rest, hcomma, hspace⟩ := separator_prefix_cons_iff.1 hc
    exact hnot rest hcomma hspace

/-! ### There is no other way to cut it -/

theorem parts_cons (h : ¬ separator <+: c :: s) :
    parts (c :: s) = (parts s).modifyHead (c :: ·) := by
  have hnot : ∀ rest, c = ',' → s = ' ' :: rest → False := fun rest hc hs =>
    h (separator_prefix_cons_iff.2 ⟨rest, hc, hs⟩)
  rw [parts.eq_3 c s hnot]
  rcases hparts : parts s with - | ⟨p, ps⟩
  · exact absurd hparts (cutInto_parts s).nonempty
  · rfl

theorem Uncut.parts_eq (h : Uncut p) : parts p = [p] := by
  induction p with
  | nil => rfl
  | cons c p ih =>
    rw [parts_cons (mt List.IsPrefix.isInfix h), ih h.of_cons]
    rfl

/-- A piece with a separator behind it is cut off. -/
theorem parts_append (hp : Uncut p) (s : List Char) :
    parts (p ++ (separator ++ s)) = p :: parts s := by
  induction p with
  | nil => rfl
  | cons c p ih =>
    have hhead : ¬ separator <+: c :: (p ++ (separator ++ s)) := by
      intro h
      obtain ⟨rest, rfl, hrest⟩ := separator_prefix_cons_iff.1 h
      rcases p with - | ⟨d, p⟩
      · -- behind the last character of the piece there is a comma, which is no space
        exact absurd (List.cons.inj hrest).1 (by decide)
      · obtain ⟨rfl, -⟩ := List.cons.inj hrest
        exact hp (List.prefix_append separator p).isInfix
    rw [List.cons_append, parts_cons hhead, ih hp.of_cons]
    rfl

theorem CutInto.parts_eq (h : CutInto l s) : parts s = l := by
  obtain ⟨hne, rfl, huncut⟩ := h
  induction l with
  | nil => exact absurd rfl hne
  | cons p l ih =>
    obtain ⟨hp, huncut⟩ := List.forall_mem_cons.1 huncut
    by_cases hl : l = []
    · rw [hl, List.intercalate_singleton]
      exact hp.parts_eq
    · rw [intercalate_cons p hl, parts_append hp, ih hl huncut]

/-- **The parts of a line are the only pieces that it is cut into.** -/
theorem parts_eq_iff : parts s = l ↔ CutInto l s := by
  constructor
  · rintro rfl
    exact cutInto_parts s
  · exact CutInto.parts_eq

/-! ### Names -/

variable {names : List String}

/-- Names that hold no separator are read back from the line that lists them. -/
theorem namesOn_listing (hne : names ≠ []) (h : ∀ name ∈ names, Uncut name.toList) :
    namesOn (listing names) = names := by
  have hcut : CutInto (names.map String.toList) (listing names).toList := by
    refine ⟨by simpa using hne, ?_, ?_⟩
    · rw [listing, String.toList_intercalate]
      rfl
    · intro p hp
      obtain ⟨name, hname, rfl⟩ := List.mem_map.1 hp
      exact h name hname
  rw [namesOn, parts_eq_iff.2 hcut, List.map_map]
  simp [Function.comp_def]

/-- Commas in names and beside separators. -/
example : namesOn "a,, ,b, c,d" = ["a,", ",b", "c,d"] := by decide

end Presence.Text
