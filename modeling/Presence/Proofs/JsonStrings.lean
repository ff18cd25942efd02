/-
Presence/Proofs/JsonStrings.lean

A JSON string says all there is to a text.

A character is written as itself or as an escape, and what the reader finds at its
place tells which.  A quote ends the string and a backslash begins an escape; both
are escaped themselves, and so is every character below U+0020, which the reader
does not take as it stands.  So the reader gets the text back character by
character (`Json.reads_stringTail`).
-/
import Presence.Json.Scan
import Presence.Json.Writer
import Presence.Proofs.Reading

namespace Presence.Json

variable {rest front text : List Char}

/-! ### Escapes -/

theorem hexValue?_digitChar : ∀ d < 16, hexValue? (Nat.digitChar d) = some d := by decide

theorem utf8Size_digitChar : ∀ d < 16, (Nat.digitChar d).utf8Size = 1 := by decide

/-- The four digits of a control character. -/
theorem hexQuad_control {n : Nat} (h : n < 0x20) :
    hexQuad ('0' :: '0' :: Nat.digitChar (n / 16) :: Nat.digitChar (n % 16) :: rest) = .ok n := by
  have hhigh : n / 16 < 16 := by omega
  have hlow : n % 16 < 16 := by omega
  have hbytes : byteLength ['0', '0', Nat.digitChar (n / 16), Nat.digitChar (n % 16)] = 4 := by
    simp only [byteLength, List.map_cons, List.map_nil, List.foldr_cons, List.foldr_nil,
      utf8Size_digitChar _ hhigh, utf8Size_digitChar _ hlow]
    rfl
  have hdigits : ['0', '0', Nat.digitChar (n / 16), Nat.digitChar (n % 16)].mapM hexValue? =
      some [0, 0, n / 16, n % 16] := by
    simp [hexValue?_digitChar _ hhigh, hexValue?_digitChar _ hlow]
    rfl
  unfold hexQuad
  simp only [List.take_succ_cons, List.take_zero, hbytes, hdigits]
  simp
  omega

/-- An escaped control character. -/
theorem escape_control {c : Char} (h : c.toNat < 0x20) :
    escape ('u' :: '0' :: '0' :: Nat.digitChar (c.toNat / 16) ::
      Nat.digitChar (c.toNat % 16) :: rest) = .ok (c, 5) := by
  have hlow : isLowSurrogate c.toNat = false := by
    simp [isLowSurrogate]
    omega
  have hhigh : isHighSurrogate c.toNat = false := by
    simp [isHighSurrogate]
    omega
  simp only [escape, hexQuad_control h, bind, Except.bind, hlow, hhigh, Bool.false_eq_true,
    if_false, pure, Except.pure, Char.ofNat_toNat]

/-! ### Strings -/

section

variable (h : Reads (stringTail : Scan (List Char)) front text rest)

include h

/-- An escape is taken as the character that it stands for. -/
theorem reads_escape {c : Char} {letters : List Char}
    (hescape : escape (letters ++ front ++ rest) = .ok (c, letters.length)) :
    Reads (stringTail : Scan (List Char)) ('\\' :: letters ++ front) (c :: text) rest := by
  have htail : stringTail (front ++ rest) = .ok (text, rest) := h
  have hdrop : (letters ++ front ++ rest).drop letters.length = front ++ rest := by
    rw [List.append_assoc, List.drop_left]
  show stringTail ('\\' :: (letters ++ front ++ rest)) = .ok (c :: text, rest)
  rw [stringTail, hescape]
  show (stringTail ((letters ++ front ++ rest).drop letters.length)).bind
    (fun p => .ok (c :: p.1, p.2)) = Except.ok (c :: text, rest)
  rw [hdrop, htail]
  rfl

/-- A character that needs no escape is taken as it stands. -/
theorem reads_plain {c : Char} (hquote : c ≠ '"') (hslash : c ≠ '\\') (hc : 0x20 ≤ c.toNat) :
    Reads (stringTail : Scan (List Char)) (c :: front) (c :: text) rest := by
  have htail : stringTail (front ++ rest) = .ok (text, rest) := h
  show stringTail (c :: (front ++ rest)) = .ok (c :: text, rest)
  rw [stringTail]
  · rw [if_neg (Nat.not_lt.2 hc), htail]
    rfl
  · exact hquote
  · exact hslash

/-- What is written for a character is taken as this character. -/
theorem reads_stringChar (c : Char) :
    Reads (stringTail : Scan (List Char)) (stringChar c ++ front) (c :: text) rest := by
  unfold stringChar
  -- the seven characters that have a letter of their own
  iterate 7
    split
    · next hc =>
      subst hc
      exact reads_escape h rfl
  split
  · next hcontrol => exact reads_escape h (escape_control hcontrol)
  · next hquote hslash _ _ _ _ _ hcontrol =>
    exact reads_plain h hquote hslash (Nat.not_lt.1 hcontrol)

end

/-- **A JSON string says all there is to a text.** -/
theorem reads_stringTail (text rest : List Char) :
    Reads (stringTail : Scan (List Char)) (text.flatMap stringChar ++ ['"']) text rest := by
  induction text with
  | nil =>
    show stringTail ('"' :: rest) = _
    rw [stringTail]
    rfl
  | cons c text ih =>
    rw [List.flatMap_cons, List.append_assoc]
    exact reads_stringChar ih c

theorem reads_skip (c : Char) : Reads skip [c] () rest := rfl

theorem reads_stringText (text rest : List Char) : Reads stringText (string text) text rest := by
  have htail : stringTail (text.flatMap stringChar ++ ['"'] ++ rest) = .ok (text, rest) :=
    reads_stringTail text rest
  have hlayout : string text = ['"'] ++ (text.flatMap stringChar ++ ['"']) := rfl
  rw [hlayout]
  refine (reads_skip '"').bind (Reads.get ?_)
  show ((stringTail (text.flatMap stringChar ++ ['"'] ++ rest)).bind fun p => .ok (p, _)).bind
    (fun p => .ok (p.1.1, p.1.2)) = _
  rw [htail]
  rfl

end Presence.Json
