/-
Presence/Proofs/Blanks.lean

Cutting a line at its blanks.

A word is a run of characters, one at least, of which none is blank.  Where a
text begins with a word and a blank behind it, they are what is cut off
(`firstWord_append`, `afterFirstWord_append`).  Conversely, whatever is cut off is
a word (`isWord_firstWord`, `isWord_of_mem_words`).

What follows a word on a line carries a content behind a single blank, or there is
nothing and the content is empty (`Carries`).  This is how the content is cut off,
whatever it begins with (`exists_carries`, `afterFirstWord_append_carries`).

Line feeds and carriage returns are blank (`isBlank_of_isLineEnd`).  A line ends
plain if none of them is at its end; `dropLineEnds` leaves such a line
(`endsPlain_dropLineEnds`) and does nothing to it (`dropLineEnds_of_endsPlain`).
-/
import Mathlib.Data.List.DropRight
import Mathlib.Data.List.Induction
import Presence.Text.Blank

namespace Presence.Text

variable {s t w : List Char} {b c : Char}

/-- No character is blank. -/
def BlankFree (w : List Char) : Prop := ∀ c ∈ w, isBlank c = false

instance (w : List Char) : Decidable (BlankFree w) := List.decidableBAll _ w

/-- A run of characters, one at least, of which none is blank. -/
structure IsWord (w : List Char) : Prop where
  /-- There is a character. -/
  nonempty : w ≠ []
  /-- None is blank. -/
  blankFree : BlankFree w

instance (w : List Char) : Decidable (IsWord w) :=
  decidable_of_iff (w ≠ [] ∧ BlankFree w) ⟨fun h => ⟨h.1, h.2⟩, fun h => ⟨h.1, h.2⟩⟩

theorem IsWord.ofList (h : IsWord w) : IsWord (String.ofList w).toList := by
  rwa [String.toList_ofList]

theorem IsWord.head (h : IsWord w) : ∀ c ∈ (w ++ t).head?, isBlank c = false := by
  obtain ⟨d, rest, rfl⟩ := List.exists_cons_of_ne_nil h.nonempty
  intro c hc
  obtain rfl := Option.some.inj hc
  exact h.blankFree _ List.mem_cons_self

/-! ### Line ends -/

theorem isBlank_of_isLineEnd (h : isLineEnd c = true) : isBlank c = true := by
  simp only [isLineEnd, Bool.or_eq_true, beq_iff_eq] at h
  rcases h with rfl | rfl <;> decide

theorem isLineEnd_of_not_isBlank (h : isBlank c = false) : isLineEnd c = false := by
  apply Bool.eq_false_iff.2
  intro hend
  rw [isBlank_of_isLineEnd hend] at h
  exact Bool.false_ne_true h.symm

/-- The line does not end with a line end. -/
def EndsPlain (s : List Char) : Prop := ∀ c ∈ s.getLast?, isLineEnd c = false

instance (s : List Char) : Decidable (EndsPlain s) := Option.decidableForallMem s.getLast?

theorem endsPlain_iff : EndsPlain s ↔ dropLineEnds s = s := by
  show _ ↔ s.rdropWhile isLineEnd = s
  rw [List.rdropWhile_eq_self_iff]
  constructor
  · intro h hs
    rw [h _ (List.getLast?_eq_some_getLast hs)]
    exact Bool.false_ne_true
  · intro h c hc
    obtain ⟨front, rfl⟩ := List.getLast?_eq_some_iff.1 hc
    simpa using h (by simp)

theorem dropLineEnds_of_endsPlain (h : EndsPlain s) : dropLineEnds s = s := endsPlain_iff.1 h

theorem endsPlain_dropLineEnds (s : List Char) : EndsPlain (dropLineEnds s) :=
  endsPlain_iff.2 (List.rdropWhile_idempotent isLineEnd s)

theorem dropLineEnds_concat (h : isLineEnd c = true) :
    dropLineEnds (s ++ [c]) = dropLineEnds s :=
  List.rdropWhile_concat_pos isLineEnd s c h

theorem dropLineEnds_append (ht : ∀ c ∈ t, isLineEnd c = true) :
    dropLineEnds (s ++ t) = dropLineEnds s := by
  induction t using List.reverseRecOn with
  | nil => rw [List.append_nil]
  | append_singleton t c ih =>
    obtain ⟨ht, hc⟩ := List.forall_mem_append.1 ht
    rw [← List.append_assoc, dropLineEnds_concat (hc c List.mem_cons_self), ih ht]

theorem exists_lineEnds (s : List Char) :
    ∃ ends, (∀ c ∈ ends, isLineEnd c = true) ∧ s = dropLineEnds s ++ ends :=
  ⟨s.rtakeWhile isLineEnd, fun _ hc => List.mem_rtakeWhile_imp hc,
    List.rdropWhile_append_rtakeWhile.symm⟩

theorem EndsPlain.of_blankFree (h : BlankFree s) : EndsPlain s :=
  fun c hc => isLineEnd_of_not_isBlank (h c (List.mem_of_getLast? hc))

/-- What is behind a part of a line ends as the line does. -/
theorem EndsPlain.of_suffix (h : EndsPlain s) (hsuffix : t <:+ s) : EndsPlain t := by
  obtain ⟨front, rfl⟩ := hsuffix
  intro c hc
  exact h c (by simp [List.getLast?_append, Option.mem_def.1 hc])

theorem EndsPlain.append (h : EndsPlain t) (ht : t ≠ []) : EndsPlain (s ++ t) := by
  intro c hc
  rw [List.getLast?_append, Option.or_of_isSome (List.getLast?_isSome.2 ht)] at hc
  exact h c hc

/-! ### Blanks in front -/

theorem skipBlanks_suffix (s : List Char) : skipBlanks s <:+ s := List.dropWhile_suffix isBlank

theorem skipBlanks_eq_nil_iff : skipBlanks s = [] ↔ ∀ c ∈ s, isBlank c = true :=
  List.dropWhile_eq_nil_iff

/-- Line ends do not count for whether a line is blank. -/
theorem skipBlanks_dropLineEnds_eq_nil_iff :
    skipBlanks (dropLineEnds s) = [] ↔ ∀ c ∈ s, isBlank c = true := by
  obtain ⟨ends, hends, hs⟩ := exists_lineEnds s
  rw [skipBlanks_eq_nil_iff]
  constructor
  · intro h
    rw [hs]
    exact List.forall_mem_append.2 ⟨h, fun c hc => isBlank_of_isLineEnd (hends c hc)⟩
  · intro h
    rw [hs] at h
    exact (List.forall_mem_append.1 h).1

theorem skipBlanks_append (hw : ∀ c ∈ w, isBlank c = true) (s : List Char) :
    skipBlanks (w ++ s) = skipBlanks s :=
  List.dropWhile_append_of_pos hw

theorem exists_blanks (s : List Char) :
    ∃ w, (∀ c ∈ w, isBlank c = true) ∧ s = w ++ skipBlanks s :=
  ⟨s.takeWhile isBlank, fun _ hc => List.mem_takeWhile_imp hc,
    List.takeWhile_append_dropWhile.symm⟩

theorem skipBlanks_of_head (h : ∀ c ∈ s.head?, isBlank c = false) : skipBlanks s = s := by
  rcases s with - | ⟨c, rest⟩
  · rfl
  · exact List.dropWhile_cons_of_neg (by simp [h c rfl])

theorem isBlank_head_skipBlanks (s : List Char) :
    ∀ c ∈ (skipBlanks s).head?, isBlank c = false := by
  intro c hc
  have hnot := List.head?_dropWhile_not isBlank s
  rw [← skipBlanks, Option.mem_def.1 hc] at hnot
  exact hnot

/-! ### The first word -/

theorem blankFree_firstWord (s : List Char) : BlankFree (firstWord s) := by
  intro c hc
  simpa using List.mem_takeWhile_imp hc

/-- A text that does not begin with a blank begins with a word. -/
theorem isWord_firstWord (h : ∀ c ∈ s.head?, isBlank c = false) (hs : s ≠ []) :
    IsWord (firstWord s) := by
  refine ⟨?_, blankFree_firstWord s⟩
  obtain ⟨c, rest, rfl⟩ := List.exists_cons_of_ne_nil hs
  rw [firstWord, List.takeWhile_cons_of_pos (by simp [h c rfl])]
  exact List.cons_ne_nil _ _

/-- Only a text that begins with a word has a first word. -/
theorem isBlank_head_of_firstWord (h : firstWord s ≠ []) : ∀ c ∈ s.head?, isBlank c = false := by
  intro c hc
  obtain ⟨rest, rfl⟩ := List.head?_eq_some_iff.1 hc
  apply Bool.eq_false_iff.2
  intro hblank
  exact h (List.takeWhile_cons_of_neg (by simp [hblank]))

theorem firstWord_append (hw : BlankFree w) (hb : isBlank b = true) (t : List Char) :
    firstWord (w ++ b :: t) = w := by
  rw [firstWord, List.takeWhile_append_of_pos (by simpa [BlankFree] using hw),
    List.takeWhile_cons_of_neg (by simp [hb]), List.append_nil]

theorem afterFirstWord_append (hw : BlankFree w) (hb : isBlank b = true) (t : List Char) :
    afterFirstWord (w ++ b :: t) = t := by
  rw [afterFirstWord, List.dropWhile_append_of_pos (by simpa [BlankFree] using hw),
    List.dropWhile_cons_of_neg (by simp [hb])]
  rfl

theorem afterFirstWord_suffix (s : List Char) : afterFirstWord s <:+ s :=
  (List.drop_suffix 1 _).trans (List.dropWhile_suffix _)

/-- What follows a word on a line: nothing, or a single blank and then the content. -/
inductive Carries : (rest content : List Char) → Prop
  | nothing : Carries [] []
  | behind {b : Char} (content : List Char) : isBlank b = true → Carries (b :: content) content

section

variable {rest content : List Char}

/-- The first word is cut off together with one blank, and what is left is the content. -/
theorem exists_carries (s : List Char) :
    ∃ rest, s = firstWord s ++ rest ∧ Carries rest (afterFirstWord s) := by
  refine ⟨s.dropWhile fun c => !isBlank c, List.takeWhile_append_dropWhile.symm, ?_⟩
  rw [afterFirstWord]
  rcases hrest : s.dropWhile fun c => !isBlank c with - | ⟨b, content⟩
  · exact .nothing
  · have hnot := List.head?_dropWhile_not (fun c => !isBlank c) s
    rw [hrest] at hnot
    exact .behind content (by simpa using hnot)

/-- Blanks stand between the first word and what comes next, if anything does. -/
theorem exists_gap {s args : List Char} (h : skipBlanks (afterFirstWord s) = args)
    (hne : args ≠ []) :
    ∃ gap, gap ≠ [] ∧ (∀ c ∈ gap, isBlank c = true) ∧ s = firstWord s ++ (gap ++ args) := by
  obtain ⟨rest, hs, hrest⟩ := exists_carries s
  obtain ⟨gap, hgap, hafter⟩ := exists_blanks (afterFirstWord s)
  rw [h] at hafter
  generalize afterFirstWord s = content at hrest hafter
  cases hrest with
  | nothing => exact absurd (List.append_eq_nil_iff.1 hafter.symm).2 hne
  | @behind b content hb =>
    refine ⟨b :: gap, List.cons_ne_nil _ _, List.forall_mem_cons.2 ⟨hb, hgap⟩, ?_⟩
    rw [List.cons_append, ← hafter]
    exact hs

theorem firstWord_append_carries (hw : BlankFree w) (h : Carries rest content) :
    firstWord (w ++ rest) = w := by
  cases h with
  | nothing =>
    rw [List.append_nil, firstWord, List.takeWhile_eq_self_iff]
    simpa [BlankFree] using hw
  | behind content hb => exact firstWord_append hw hb content

theorem afterFirstWord_append_carries (hw : BlankFree w) (h : Carries rest content) :
    afterFirstWord (w ++ rest) = content := by
  cases h with
  | nothing =>
    have hnone : (w.dropWhile fun c => !isBlank c) = [] := by
      rw [List.dropWhile_eq_nil_iff]
      simpa [BlankFree] using hw
    rw [List.append_nil, afterFirstWord, hnone]
    rfl
  | behind content hb => exact afterFirstWord_append hw hb content

/-- Line ends behind a content that ends plain are dropped, perhaps with the blank in front of an
empty content, but not from the content. -/
theorem exists_carries_dropLineEnds (hw : IsWord w) (h : Carries rest content)
    (hcontent : EndsPlain content) (s : List Char) :
    ∃ rest', dropLineEnds (s ++ w ++ rest) = s ++ w ++ rest' ∧ Carries rest' content := by
  have hword : EndsPlain (s ++ w) := (EndsPlain.of_blankFree hw.blankFree).append hw.nonempty
  cases h with
  | nothing =>
    rw [List.append_nil]
    exact ⟨[], by rw [dropLineEnds_of_endsPlain hword, List.append_nil], .nothing⟩
  | @behind b content hb =>
    by_cases hend : content = [] ∧ isLineEnd b = true
    · obtain ⟨rfl, hend⟩ := hend
      refine ⟨[], ?_, .nothing⟩
      rw [dropLineEnds_concat hend, dropLineEnds_of_endsPlain hword, List.append_nil]
    · have hplain : EndsPlain (b :: content) := by
        rcases content with - | ⟨c, content⟩
        · have hb : isLineEnd b = false := by simpa using hend
          intro c hc
          obtain rfl := Option.some.inj hc
          exact hb
        · exact hcontent.append (s := [b]) (List.cons_ne_nil _ _)
      refine ⟨b :: content, ?_, .behind content hb⟩
      exact dropLineEnds_of_endsPlain (hplain.append (List.cons_ne_nil _ _))

end

/-! ### All words -/

theorem words_of_isBlank (h : isBlank c = true) (s : List Char) : words (c :: s) = words s := by
  rw [words.eq_def]
  exact if_pos h

theorem isWord_singleton (h : ¬ isBlank c = true) : IsWord [c] :=
  ⟨List.cons_ne_nil _ _, by simpa [BlankFree] using h⟩

theorem IsWord.cons (h : ¬ isBlank c = true) (hw : IsWord w) : IsWord (c :: w) :=
  ⟨List.cons_ne_nil _ _, List.forall_mem_cons.2 ⟨by simpa using h, hw.blankFree⟩⟩

theorem isWord_of_mem_words (h : w ∈ words s) : IsWord w := by
  induction s using words.induct generalizing w with
  | case1 => simp [words] at h
  | case2 c rest hc ih =>
    rw [words_of_isBlank hc] at h
    exact ih h
  | case3 c hc =>
    rw [words, if_neg hc] at h
    obtain rfl := List.mem_singleton.1 h
    exact isWord_singleton hc
  | case4 c hc d rest hd ih =>
    simp only [words, if_neg hc, if_pos hd] at h ih
    rcases List.mem_cons.1 h with rfl | h
    · exact isWord_singleton hc
    · exact ih h
  | case5 c hc d rest hd hnone ih =>
    rw [words, if_neg hc] at h
    simp only [if_neg hd, hnone] at h
    obtain rfl := List.mem_singleton.1 h
    exact isWord_singleton hc
  | case6 c hc d rest hd w' ws hwords ih =>
    rw [words, if_neg hc] at h
    simp only [if_neg hd, hwords] at h
    rcases List.mem_cons.1 h with rfl | h
    · exact (ih (hwords ▸ List.mem_cons_self)).cons hc
    · exact ih (hwords ▸ List.mem_cons_of_mem _ h)

/-- A word is the only one in itself. -/
theorem words_of_isWord (h : IsWord w) : words w = [w] := by
  induction w using words.induct with
  | case1 => exact absurd rfl h.nonempty
  | case2 c rest hc ih => simp [h.blankFree c List.mem_cons_self] at hc
  | case3 c hc => rw [words, if_neg hc]
  | case4 c hc d rest hd ih => simp [h.blankFree d (by simp)] at hd
  | case5 c hc d rest hd hnone ih =>
    have hrest : IsWord (d :: rest) :=
      ⟨List.cons_ne_nil _ _, fun c hc => h.blankFree c (List.mem_cons_of_mem _ hc)⟩
    rw [ih hrest] at hnone
    exact absurd hnone (List.cons_ne_nil _ _)
  | case6 c hc d rest hd w' ws hwords ih =>
    have hrest : IsWord (d :: rest) :=
      ⟨List.cons_ne_nil _ _, fun c hc => h.blankFree c (List.mem_cons_of_mem _ hc)⟩
    rw [words, if_neg hc]
    simp only [if_neg hd, ih hrest]

end Presence.Text
