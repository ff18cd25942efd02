/-
Presence/Proofs/Digits.lean

Runs of digits and the numbers they stand for.

What is written for a number, in decimal or at a fixed width, is a run of digits
with this value (`writes_decimal`, `writes_padded`).  `readWord64` reads a run of
digits if its value is below `2^64` (`Writes.readWord64_eq`), and what it reads
is always below (`lt_of_readWord64`).

A numeral is a run of digits with one plus sign in front of it, or with none.  The
numerals of the numbers below `2^64` are all that `readWord64` reads
(`readWord64_eq_ok_iff`).
-/
import Mathlib.Algebra.GroupWithZero.Nat
import Presence.Text.Blank
import Presence.Text.Number

namespace Presence.Text

/-! ### Writing -/

/-- The digits, one at least, stand for a number. -/
structure Writes (n : Nat) (ds : List Char) : Prop where
  /-- There is a digit. -/
  nonempty : ds ≠ []
  /-- They are digits. -/
  isDigit : ∀ c ∈ ds, c.isDigit = true
  /-- Their value. -/
  value : digitsValue ds = n

variable {n width : Nat}

theorem writes_decimal (n : Nat) : Writes n (decimal n) where
  nonempty := Nat.toDigits_ne_nil
  isDigit _ hc := Nat.isDigit_of_mem_toDigits (by decide) (by decide) hc
  value := Nat.ofDigitChars_ten_toDigits

@[simp] theorem length_padded (width n : Nat) : (padded width n).length = width := by
  induction width generalizing n with
  | zero => rfl
  | succ width ih => simp [padded, ih]

theorem isDigit_padded (width n : Nat) : ∀ c ∈ padded width n, c.isDigit = true := by
  induction width generalizing n with
  | zero => simp [padded]
  | succ width ih =>
    intro c hc
    rcases List.mem_append.1 hc with hc | hc
    · exact ih (n / 10) c hc
    · obtain rfl := List.mem_singleton.1 hc
      rw [Nat.isDigit_digitChar]
      exact decide_eq_true (Nat.mod_lt n (by decide))

/-- The digits that are left out are those in front. -/
theorem digitsValue_padded (width n : Nat) : digitsValue (padded width n) = n % 10 ^ width := by
  induction width generalizing n with
  | zero => simp [padded, digitsValue, Nat.mod_one]
  | succ width ih =>
    have hlast : digitValue (Nat.digitChar (n % 10)) = n % 10 :=
      Nat.toNat_digitChar_sub_48_of_lt_ten (Nat.mod_lt n (by decide))
    have happend : digitsValue (padded (width + 1) n) =
        10 * digitsValue (padded width (n / 10)) + digitValue (Nat.digitChar (n % 10)) := by
      simp only [digitsValue, padded, List.foldl_append, List.foldl_cons, List.foldl_nil]
    rw [happend, ih, hlast, Nat.pow_succ', Nat.mod_mul]
    omega

theorem writes_padded (hwidth : 0 < width) (h : n < 10 ^ width) : Writes n (padded width n) where
  nonempty := by
    apply List.ne_nil_of_length_pos
    rw [length_padded]
    exact hwidth
  isDigit := isDigit_padded width n
  value := (digitsValue_padded width n).trans (Nat.mod_eq_of_lt h)

/-- No blank is a digit. -/
theorem isBlank_of_isDigit {c : Char} (h : c.isDigit = true) : isBlank c = false := by
  obtain ⟨hlow, hhigh⟩ : 48 ≤ c.toNat ∧ c.toNat ≤ 57 := by
    simpa [Char.isDigit, UInt32.le_iff_toNat_le] using h
  apply Bool.eq_false_iff.2
  intro hblank
  simp only [isBlank, inRanges, blankRanges, List.any_cons, List.any_nil, Bool.or_eq_true,
    Bool.and_eq_true, decide_eq_true_eq, Bool.false_eq_true, or_false] at hblank
  omega

theorem Writes.isDigit_of_cons {ds rest more : List Char} {c : Char} (h : Writes n ds)
    (hcons : ds ++ rest = c :: more) : c.isDigit = true := by
  obtain ⟨d, ds, rfl⟩ := List.exists_cons_of_ne_nil h.nonempty
  obtain rfl := (List.cons.inj hcons).1
  exact h.isDigit _ List.mem_cons_self

theorem Writes.not_blank {ds : List Char} (h : Writes n ds) (rest : List Char) :
    ∀ c ∈ (ds ++ rest).head?, isBlank c = false := by
  obtain ⟨d, more, rfl⟩ := List.exists_cons_of_ne_nil h.nonempty
  intro c hc
  obtain rfl := Option.some.inj hc
  exact isBlank_of_isDigit (h.isDigit _ List.mem_cons_self)

/-! ### Reading -/

theorem le_foldl_digits (n : Nat) (ds : List Char) :
    n ≤ ds.foldl (fun n c => 10 * n + digitValue c) n := by
  induction ds generalizing n with
  | nil => exact Nat.le_refl n
  | cons c rest ih => exact Nat.le_trans (by omega) (ih (10 * n + digitValue c))

/-- Digits are read as long as the value stays below `2^64`; it only grows on the way. -/
theorem readDigits_eq {ds : List Char} (hdigits : ∀ c ∈ ds, c.isDigit = true)
    (h : ds.foldl (fun n c => 10 * n + digitValue c) n < UInt64.size) :
    readDigits n ds = .ok (ds.foldl (fun n c => 10 * n + digitValue c) n) := by
  induction ds generalizing n with
  | nil => rfl
  | cons c rest ih =>
    obtain ⟨hc, hrest⟩ := List.forall_mem_cons.1 hdigits
    have hlt : 10 * n + digitValue c < UInt64.size := Nat.lt_of_le_of_lt (le_foldl_digits _ rest) h
    rw [readDigits, if_pos hc]
    dsimp only
    rw [if_pos hlt]
    exact ih hrest h

theorem Writes.readWord64_eq {ds : List Char} (h : Writes n ds) (hn : n < UInt64.size) :
    readWord64 ds = .ok n := by
  have hplus (rest : List Char) : ds ≠ '+' :: rest := by
    rintro rfl
    exact absurd (h.isDigit '+' List.mem_cons_self) (by decide)
  obtain ⟨hne, hdigits, rfl⟩ := h
  unfold readWord64
  split
  · exact absurd rfl hne
  · exact absurd rfl (hplus _)
  · exact absurd rfl (hplus _)
  · exact readDigits_eq hdigits hn

theorem lt_of_readDigits {ds : List Char} {m : Nat} (hn : n < UInt64.size)
    (h : readDigits n ds = .ok m) : m < UInt64.size := by
  induction ds generalizing n with
  | nil =>
    obtain rfl := Except.ok.inj h
    exact hn
  | cons c rest ih =>
    rw [readDigits] at h
    dsimp only at h
    split at h
    · split at h
      · next hlt => exact ih hlt h
      · cases h
    · cases h

theorem lt_of_readWord64 {w : List Char} (h : readWord64 w = .ok n) : n < UInt64.size := by
  unfold readWord64 at h
  split at h
  · cases h
  · cases h
  · exact lt_of_readDigits (by decide) h
  · exact lt_of_readDigits (by decide) h

/-! ### Numerals -/

/-- The text is a numeral of a number: digits that stand for it, perhaps behind a plus sign. -/
def Numeral (n : Nat) (w : List Char) : Prop := ∃ ds, Writes n ds ∧ (w = ds ∨ w = '+' :: ds)

/-- What is read in digits is all digits, and their value behind that of those before. -/
theorem digits_of_readDigits {ds : List Char} {m : Nat} (h : readDigits n ds = .ok m) :
    (∀ c ∈ ds, c.isDigit = true) ∧ ds.foldl (fun n c => 10 * n + digitValue c) n = m := by
  induction ds generalizing n with
  | nil => exact ⟨by simp, Except.ok.inj h⟩
  | cons c rest ih =>
    rw [readDigits] at h
    dsimp only at h
    split at h
    · next hc =>
      split at h
      · obtain ⟨hrest, hvalue⟩ := ih h
        exact ⟨List.forall_mem_cons.2 ⟨hc, hrest⟩, hvalue⟩
      · cases h
    · cases h

theorem writes_of_readDigits {c : Char} {rest : List Char}
    (h : readDigits 0 (c :: rest) = .ok n) : Writes n (c :: rest) := by
  obtain ⟨hdigits, hvalue⟩ := digits_of_readDigits h
  exact ⟨List.cons_ne_nil c rest, hdigits, hvalue⟩

theorem numeral_of_readWord64 {w : List Char} (h : readWord64 w = .ok n) : Numeral n w := by
  unfold readWord64 at h
  split at h
  · cases h
  · cases h
  · exact ⟨_, writes_of_readDigits h, Or.inr rfl⟩
  · exact ⟨_, writes_of_readDigits h, Or.inl rfl⟩

theorem Numeral.readWord64_eq {w : List Char} (h : Numeral n w) (hn : n < UInt64.size) :
    readWord64 w = .ok n := by
  obtain ⟨ds, hds, rfl | rfl⟩ := h
  · exact hds.readWord64_eq hn
  · -- behind the plus sign there is a digit, so the sign is not taken for the whole text
    obtain ⟨hne, hdigits, rfl⟩ := hds
    obtain ⟨c, rest, rfl⟩ := List.exists_cons_of_ne_nil hne
    exact readDigits_eq hdigits hn

/-- **What is read is a numeral of a number below `2^64`**, and every such numeral is read. -/
theorem readWord64_eq_ok_iff {w : List Char} :
    readWord64 w = .ok n ↔ Numeral n w ∧ n < UInt64.size :=
  ⟨fun h => ⟨numeral_of_readWord64 h, lt_of_readWord64 h⟩, fun ⟨h, hn⟩ => h.readWord64_eq hn⟩

end Presence.Text
