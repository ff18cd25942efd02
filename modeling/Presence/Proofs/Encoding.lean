/-
Presence/Proofs/Encoding.lean

Texts as bytes, and where the line feeds are in them.

A text is encoded character by character (`toList_toUTF8`).  An ASCII character
is one byte, and its byte does not occur in the encoding of any other character
(`eq_of_ascii_mem`).  So the line feeds among the bytes of a text are those among
its characters (`lineFeed_mem_encode_iff`), and a carriage return at the end of
the bytes is one at the end of the text (`encodes_concat_return_iff`).

What `decodeLine` makes of a byte string depends only on whether it is the
encoding of a text: the text if it is (`decodeLine_encode`), and an error
otherwise (`decodeLine_eq_error_iff`).
-/
import Presence.Text.Lines

namespace Presence

/-- The bytes of an array, as a list. -/
theorem toList_byteArray (bytes : ByteArray) : bytes.toList = bytes.data.toList := by
  have hloop (i : Nat) (done : List UInt8) :
      ByteArray.toList.loop bytes i done = done.reverse ++ bytes.data.toList.drop i := by
    induction i, done using ByteArray.toList.loop.induct bytes with
    | case1 i done hlt ih =>
      have hlt' : i < bytes.data.toList.length := by simpa using hlt
      have hget : bytes.get! i = bytes.data.toList[i] := getElem!_pos bytes.data i hlt
      rw [ByteArray.toList.loop, if_pos hlt, ih, List.drop_eq_getElem_cons hlt', hget]
      simp
    | case2 i done hge =>
      have hge' : bytes.data.toList.length ≤ i := by simpa using hge
      rw [ByteArray.toList.loop, if_neg hge, List.drop_eq_nil_of_le hge', List.append_nil]
  rw [ByteArray.toList, hloop]
  rfl

namespace Text

/-! ### Encoding -/

/-- The bytes of a text. -/
def encode (text : List Char) : List UInt8 := text.flatMap String.utf8EncodeChar

@[simp] theorem encode_nil : encode [] = [] := rfl

theorem encode_cons (c : Char) (text : List Char) :
    encode (c :: text) = String.utf8EncodeChar c ++ encode text := List.flatMap_cons

@[simp] theorem encode_append (text more : List Char) :
    encode (text ++ more) = encode text ++ encode more := List.flatMap_append

theorem encode_lineFeed_cons (text : List Char) :
    encode ('\n' :: text) = lineFeed :: encode text := by
  have hbyte : String.utf8EncodeChar '\n' = [lineFeed] := by decide
  rw [encode_cons, hbyte]
  rfl

@[simp] theorem encode_carriageReturn : encode ['\r'] = [carriageReturn] := by decide

theorem encode_eq_nil_iff {text : List Char} : encode text = [] ↔ text = [] := by
  cases text with
  | nil => simp
  | cons c rest => simp [encode_cons, String.utf8EncodeChar_ne_nil]

theorem toList_toUTF8 (text : String) : text.toUTF8.toList = encode text.toList := by
  rw [toList_byteArray, String.toUTF8_eq_toByteArray, ← String.utf8Encode_toList,
    List.utf8Encode, List.toList_data_toByteArray, encode]

/-- The bytes are those of a text. -/
def Encodes (bytes : List UInt8) : Prop := ∃ text, bytes = encode text

theorem encodes_iff {bytes : List UInt8} : Encodes bytes ↔ bytes.toByteArray.IsValidUTF8 := by
  constructor
  · rintro ⟨text, rfl⟩
    exact ⟨text, rfl⟩
  · rintro ⟨text, htext⟩
    exact ⟨text, List.toByteArray_inj.1 htext⟩

/-! ### Decoding -/

theorem decodeLine_encode (text : List Char) :
    decodeLine (encode text) = .ok (String.ofList text) := by
  have hvalid : (encode text).toByteArray.IsValidUTF8 := encodes_iff.1 ⟨text, rfl⟩
  have hdecode : String.fromUTF8? (encode text).toByteArray = some (String.ofList text) := by
    rw [String.fromUTF8?, dif_pos hvalid]
    refine congrArg some (String.toByteArray_inj.1 ?_)
    rw [String.toByteArray_ofList]
    rfl
  rw [decodeLine, hdecode]

theorem decodeLine_eq_error_iff {bytes : List UInt8} :
    decodeLine bytes = .error .invalidText ↔ ¬ Encodes bytes := by
  constructor
  · rintro herror ⟨text, rfl⟩
    rw [decodeLine_encode] at herror
    cases herror
  · intro hbytes
    have hdecode : String.fromUTF8? bytes.toByteArray = none := by
      rw [String.fromUTF8?, dif_neg (mt encodes_iff.2 hbytes)]
    rw [decodeLine, hdecode]

/-! ### ASCII characters -/

/-- A character has one byte, or several with their highest bits set. -/
theorem encodeChar_cases (c : Char) :
    (∃ b, String.utf8EncodeChar c = [b]) ∨ ∀ b ∈ String.utf8EncodeChar c, 128 ≤ b.toNat := by
  unfold String.utf8EncodeChar
  dsimp only
  split
  · exact Or.inl ⟨_, rfl⟩
  · refine Or.inr ?_
    split
    · simp only [List.forall_mem_cons, List.not_mem_nil, false_implies, implies_true, and_true,
        UInt8.toNat_ofNat']
      omega
    · split
      · simp only [List.forall_mem_cons, List.not_mem_nil, false_implies, implies_true, and_true,
        UInt8.toNat_ofNat']
        omega
      · simp only [List.forall_mem_cons, List.not_mem_nil, false_implies, implies_true, and_true,
        UInt8.toNat_ofNat']
        omega

section

variable {b : UInt8} {d : Char} (hb : b.toNat < 128) (hd : String.utf8EncodeChar d = [b])
  {text : List Char}

include hb hd

/-- The byte of an ASCII character is in no other character. -/
theorem eq_of_ascii_mem {c : Char} (h : b ∈ String.utf8EncodeChar c) : c = d := by
  rcases encodeChar_cases c with ⟨b', hc⟩ | hhigh
  · rw [hc, List.mem_singleton] at h
    subst h
    have hsame : encode [c] = encode [d] := by
      rw [encode_cons, encode_cons, hc, hd]
    have htexts := (decodeLine_encode [c]).symm.trans (hsame ▸ decodeLine_encode [d])
    simpa using htexts
  · exact absurd (hhigh b h) (Nat.not_le.2 hb)

theorem ascii_mem_encode_iff : b ∈ encode text ↔ d ∈ text := by
  constructor
  · intro h
    obtain ⟨c, hc, hmem⟩ := List.mem_flatMap.1 h
    rwa [← eq_of_ascii_mem hb hd hmem]
  · intro h
    exact List.mem_flatMap.2 ⟨d, h, by simp [hd]⟩

/-- A text ends with an ASCII character if its bytes end with the byte of this. -/
theorem exists_of_encode_eq_concat {front : List UInt8} (h : encode text = front ++ [b]) :
    ∃ start, text = start ++ [d] ∧ front = encode start := by
  rcases List.eq_nil_or_concat text with rfl | ⟨start, c, rfl⟩
  · simp at h
  · rw [List.concat_eq_append] at h ⊢
    have hlast : encode start ++ String.utf8EncodeChar c = front ++ [b] := by
      rw [← h, encode_append, encode_cons, encode_nil, List.append_nil]
    have hmem : b ∈ String.utf8EncodeChar c := by
      have hget : (front ++ [b]).getLast? = some b := List.getLast?_concat
      rw [← hlast, List.getLast?_append, Option.or_of_isSome] at hget
      · exact List.mem_of_getLast? hget
      · exact List.getLast?_isSome.2 String.utf8EncodeChar_ne_nil
    obtain rfl := eq_of_ascii_mem hb hd hmem
    rw [hd] at hlast
    exact ⟨start, rfl, (List.append_inj_left' hlast rfl).symm⟩

end

theorem lineFeed_mem_encode_iff {text : List Char} : lineFeed ∈ encode text ↔ '\n' ∈ text :=
  ascii_mem_encode_iff (by decide) (by decide)

/-- A carriage return at the end does not matter for whether bytes are those of a text. -/
theorem encodes_concat_return_iff {bytes : List UInt8} :
    Encodes (bytes ++ [carriageReturn]) ↔ Encodes bytes := by
  constructor
  · rintro ⟨text, htext⟩
    obtain ⟨start, -, hstart⟩ :=
      exists_of_encode_eq_concat (d := '\r') (by decide) (by decide) htext.symm
    exact ⟨start, hstart⟩
  · rintro ⟨text, rfl⟩
    exact ⟨text ++ ['\r'], by simp⟩

end Text

end Presence
