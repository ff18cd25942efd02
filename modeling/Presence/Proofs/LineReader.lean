/-
Presence/Proofs/LineReader.lean

What the line reader gets out of a byte string.

A list is cut at a separator into pieces that do not contain it,

    p₁ sep p₂ sep ... pₙ sep last

(`exists_terminated`), and in one way only (`splitOn_terminated`).  For bytes cut
at line feeds these are the pieces that the reader takes, one line at a time
(`lines_of_ok`, `lines_of_error`, `lines_of_not_mem`).  A line feed is never
inside of a character, so the pieces of an encoded text are its own pieces,
encoded (`encode_terminated`).  Hence the reader's view, piece by piece, agrees
with that of the input as a whole:

    a text             its lines, as `textLines` has them (`lines_encode`);
    any other input    the lines in front of the first piece that is no text,
                       and one error (`FirstFlaw.lines_eq`).

Main result: `reads_every_byte_string`.
-/
import Presence.Proofs.Encoding

namespace Presence.Text

/-! ### Cutting at a separator -/

section

variable {α : Type} {sep : α} {closed : List (List α)} {last : List α}

/-- Pieces with a separator behind each of them. -/
def terminated (sep : α) (closed : List (List α)) : List α := closed.flatMap (· ++ [sep])

theorem terminated_cons (sep : α) (p : List α) (closed : List (List α)) (l : List α) :
    terminated sep (p :: closed) ++ l = p ++ sep :: (terminated sep closed ++ l) := by
  simp [terminated]

variable [DecidableEq α]

/-- A list is made of pieces with separators behind them and a last piece without one. -/
theorem exists_terminated (sep : α) (l : List α) :
    ∃ closed last, (∀ p ∈ closed, sep ∉ p) ∧ sep ∉ last ∧ l = terminated sep closed ++ last := by
  induction l with
  | nil => exact ⟨[], [], by simp, by simp, rfl⟩
  | cons a rest ih =>
    obtain ⟨closed, last, hclosed, hlast, rfl⟩ := ih
    by_cases h : a = sep
    · subst h
      exact ⟨[] :: closed, last, by simpa using hclosed, hlast, rfl⟩
    · -- the first piece becomes longer by one
      rcases closed with - | ⟨p, closed⟩
      · exact ⟨[], a :: last, by simp, by simp [Ne.symm h, hlast], rfl⟩
      · obtain ⟨hp, hclosed⟩ := List.forall_mem_cons.1 hclosed
        refine ⟨(a :: p) :: closed, last, ?_, hlast, rfl⟩
        exact List.forall_mem_cons.2 ⟨by simp [Ne.symm h, hp], hclosed⟩

/-- The pieces are the only ones that can be found. -/
theorem splitOn_terminated (hclosed : ∀ p ∈ closed, sep ∉ p) (hlast : sep ∉ last) :
    (terminated sep closed ++ last).splitOn sep = closed ++ [last] := by
  induction closed with
  | nil => exact List.splitOn_eq_singleton hlast
  | cons p closed ih =>
    obtain ⟨hp, hclosed⟩ := List.forall_mem_cons.1 hclosed
    rw [terminated_cons, List.splitOn_append_cons_self_of_not_mem hp, ih hclosed]
    rfl

/-- The line that a last piece is, if it is one. -/
def lastLine (p : List α) : List (List α) := if p = [] then [] else [p]

end

/-! ### Lines of texts -/

/-- A piece of a text without one carriage return at its end. -/
def withoutReturn (p : List Char) : List Char :=
  if p.getLast? = some '\r' then p.dropLast else p

/-- The lines of a text: the pieces between its line feeds, the last one only if it is not empty,
and the others without a carriage return at their end. -/
def textLines (text : List Char) : List (List Char) :=
  (text.splitOn '\n').dropLast.map withoutReturn ++ lastLine ((text.splitOn '\n').getLastD [])

theorem textLines_terminated {closed : List (List Char)} {last : List Char}
    (hclosed : ∀ p ∈ closed, '\n' ∉ p) (hlast : '\n' ∉ last) :
    textLines (terminated '\n' closed ++ last) = closed.map withoutReturn ++ lastLine last := by
  rw [textLines, splitOn_terminated hclosed hlast, List.dropLast_concat, List.getLastD_concat]

theorem withoutReturn_concat (p : List Char) : withoutReturn (p ++ ['\r']) = p := by
  simp [withoutReturn]

/-! ### Encoded pieces -/

variable {closed : List (List UInt8)} {last p : List UInt8}

theorem encode_terminated (texts : List (List Char)) :
    encode (terminated '\n' texts) = terminated lineFeed (texts.map encode) := by
  induction texts with
  | nil => rfl
  | cons p texts ih =>
    have hfirst : terminated '\n' (p :: texts) = p ++ '\n' :: terminated '\n' texts := by
      simp [terminated]
    rw [hfirst, encode_append, encode_lineFeed_cons, ih]
    simp [terminated]

theorem dropReturn_encode (p : List Char) : dropReturn (encode p) = encode (withoutReturn p) := by
  rw [dropReturn, withoutReturn]
  by_cases h : p.getLast? = some '\r'
  · obtain ⟨start, rfl⟩ := List.getLast?_eq_some_iff.1 h
    simp
  · rw [if_neg h, if_neg]
    intro hreturn
    obtain ⟨front, hfront⟩ := List.getLast?_eq_some_iff.1 hreturn
    obtain ⟨start, rfl, -⟩ :=
      exists_of_encode_eq_concat (d := '\r') (by decide) (by decide) hfront
    exact h List.getLast?_concat

/-! ### The reader -/

theorem pieces_eq_splitOn (bytes : List UInt8) : pieces bytes = bytes.splitOn lineFeed := by
  induction bytes with
  | nil => rfl
  | cons b rest ih =>
    rw [pieces, ih, List.splitOn_cons_eq_if_modifyHead]
    by_cases h : b = lineFeed
    · simp [h]
    · rw [if_neg h, if_neg (by simpa using h)]
      rcases hrest : rest.splitOn lineFeed with - | ⟨p, ps⟩
      · exact absurd hrest (List.splitOn_ne_nil _ _)
      · rfl

/-- The first line is taken off, and the others are those of what comes behind it. -/
theorem byteLines_pieces (hp : lineFeed ∉ p) (rest : List UInt8) :
    byteLines (pieces (p ++ lineFeed :: rest)) = dropReturn p :: byteLines (pieces rest) := by
  rw [pieces_eq_splitOn, pieces_eq_splitOn, List.splitOn_append_cons_self_of_not_mem hp]
  obtain ⟨q, qs, hsplit⟩ := List.exists_cons_of_ne_nil (List.splitOn_ne_nil lineFeed rest)
  rw [hsplit]
  rfl

theorem lines_of_ok {text : String} (hp : lineFeed ∉ p) (h : decodeLine (dropReturn p) = .ok text)
    (rest : List UInt8) : lines (p ++ lineFeed :: rest) = .ok text :: lines rest := by
  rw [lines, byteLines_pieces hp, List.map_cons, h]
  rfl

theorem lines_of_error {e : InputError} (hp : lineFeed ∉ p)
    (h : decodeLine (dropReturn p) = .error e) (rest : List UInt8) :
    lines (p ++ lineFeed :: rest) = [.error e] := by
  rw [lines, byteLines_pieces hp, List.map_cons, h]
  rfl

/-- What comes behind the last line feed is a line as it is, unless there is nothing. -/
theorem lines_of_not_mem (hp : lineFeed ∉ p) : lines p = (lastLine p).map decodeLine := by
  rw [lines, pieces_eq_splitOn, List.splitOn_eq_singleton hp]
  show upToError ((lastLine p).map decodeLine) = _
  unfold lastLine
  split
  · rfl
  · show upToError [decodeLine p] = [decodeLine p]
    rcases decodeLine p with e | text <;> rfl

/-! ### Input that is a text -/

/-- What the reader delivers of a line that is a text. -/
def delivered (line : List Char) : Except InputError String := .ok (String.ofList line)

theorem map_decodeLine_lastLine (p : List Char) :
    (lastLine (encode p)).map decodeLine = (lastLine p).map delivered := by
  unfold lastLine
  by_cases h : p = []
  · simp [h]
  · rw [if_neg h, if_neg (mt encode_eq_nil_iff.1 h)]
    exact congrArg (· :: []) (decodeLine_encode p)

/-- Lines that are texts are delivered one by one, and then what comes behind them. -/
theorem lines_terminated_append {texts : List (List Char)} (h : ∀ p ∈ texts, '\n' ∉ p)
    (rest : List UInt8) :
    lines (terminated lineFeed (texts.map encode) ++ rest) =
      (texts.map withoutReturn).map delivered ++ lines rest := by
  induction texts with
  | nil => rfl
  | cons p texts ih =>
    obtain ⟨hp, htexts⟩ := List.forall_mem_cons.1 h
    have hdecode : decodeLine (dropReturn (encode p)) = delivered (withoutReturn p) := by
      rw [dropReturn_encode]
      exact decodeLine_encode _
    rw [List.map_cons, terminated_cons, lines_of_ok (mt lineFeed_mem_encode_iff.1 hp) hdecode,
      ih htexts]
    rfl

/-- The lines of a text are delivered, each as it is. -/
theorem lines_encode (text : List Char) : lines (encode text) = (textLines text).map delivered := by
  obtain ⟨texts, last, htexts, hlast, rfl⟩ := exists_terminated '\n' text
  rw [encode_append, encode_terminated, lines_terminated_append htexts,
    lines_of_not_mem (mt lineFeed_mem_encode_iff.1 hlast), map_decodeLine_lastLine,
    textLines_terminated htexts hlast, List.map_append]

/-! ### Input that is no text -/

/-- The first piece of an input that is no text.  What is in front of it is a text of whole lines,
and what is behind it begins with a line feed, if there is anything. -/
structure FirstFlaw (front flaw rest : List UInt8) : Prop where
  /-- The front is valid. -/
  front_valid : front.toByteArray.IsValidUTF8
  /-- The front ends with a line, if it is not empty. -/
  front_whole : front = [] ∨ front.getLast? = some lineFeed
  /-- The piece is on one line. -/
  flaw_free : lineFeed ∉ flaw
  /-- The piece is not valid. -/
  flaw_invalid : ¬ flaw.toByteArray.IsValidUTF8
  /-- The piece is all of its line. -/
  rest_apart : rest = [] ∨ rest.head? = some lineFeed

theorem encodes_dropReturn_iff : Encodes (dropReturn p) ↔ Encodes p := by
  unfold dropReturn
  split
  · next hreturn =>
    obtain ⟨front, rfl⟩ := List.getLast?_eq_some_iff.1 hreturn
    rw [List.dropLast_concat, encodes_concat_return_iff]
  · exact Iff.rfl

/-- At a piece that is no text the reader stops with an error, whatever comes behind. -/
theorem lines_of_not_encodes {flaw rest : List UInt8} (hfree : lineFeed ∉ flaw)
    (hflaw : ¬ Encodes flaw) (hrest : rest = [] ∨ rest.head? = some lineFeed) :
    lines (flaw ++ rest) = [.error .invalidText] := by
  rcases hrest with rfl | hrest
  · have hne : flaw ≠ [] := by
      rintro rfl
      exact hflaw ⟨[], rfl⟩
    rw [List.append_nil, lines_of_not_mem hfree, lastLine, if_neg hne]
    exact congrArg (· :: []) (decodeLine_eq_error_iff.2 hflaw)
  · obtain ⟨later, rfl⟩ := List.head?_eq_some_iff.1 hrest
    exact lines_of_error hfree (decodeLine_eq_error_iff.2 (mt encodes_dropReturn_iff.1 hflaw)) later

/-- A text of whole lines is one of pieces that all end. -/
theorem exists_terminated_of_whole {text : List Char}
    (h : encode text = [] ∨ (encode text).getLast? = some lineFeed) :
    ∃ texts, (∀ p ∈ texts, '\n' ∉ p) ∧ text = terminated '\n' texts := by
  obtain ⟨texts, last, htexts, hlast, rfl⟩ := exists_terminated '\n' text
  suffices last = [] by
    subst this
    exact ⟨texts, htexts, List.append_nil _⟩
  apply Classical.byContradiction
  intro hne
  have hbytes : encode last ≠ [] := mt encode_eq_nil_iff.1 hne
  rw [encode_append, List.getLast?_append, Option.or_of_isSome (List.getLast?_isSome.2 hbytes)] at h
  rcases h with hnil | hfeed
  · exact hbytes (List.append_eq_nil_iff.1 hnil).2
  · exact hlast (lineFeed_mem_encode_iff.1 (List.mem_of_getLast? hfeed))

theorem FirstFlaw.lines_eq {front flaw rest : List UInt8} (h : FirstFlaw front flaw rest) :
    lines (front ++ (flaw ++ rest)) = lines front ++ [.error .invalidText] := by
  obtain ⟨text, rfl⟩ := encodes_iff.2 h.front_valid
  obtain ⟨texts, htexts, rfl⟩ := exists_terminated_of_whole h.front_whole
  have hfront := lines_terminated_append htexts []
  rw [List.append_nil] at hfront
  rw [encode_terminated, lines_terminated_append htexts, hfront,
    lines_of_not_encodes h.flaw_free (mt encodes_iff.1 h.flaw_invalid) h.rest_apart]
  exact congrArg (· ++ _) (List.append_nil _).symm

/-- Input that is no text has a first piece that is none. -/
theorem exists_firstFlaw {bytes : List UInt8} (h : ¬ Encodes bytes) :
    ∃ front flaw rest, bytes = front ++ (flaw ++ rest) ∧ FirstFlaw front flaw rest := by
  obtain ⟨closed, last, hclosed, hlast, rfl⟩ := exists_terminated lineFeed bytes
  induction closed with
  | nil =>
    refine ⟨[], last, [], by simp [terminated], ?_⟩
    exact ⟨encodes_iff.1 ⟨[], rfl⟩, Or.inl rfl, hlast, mt encodes_iff.2 h, Or.inl rfl⟩
  | cons p closed ih =>
    obtain ⟨hp, hclosed'⟩ := List.forall_mem_cons.1 hclosed
    by_cases hencodes : Encodes p
    · -- the first line is a text, and the flaw comes later
      obtain ⟨text, rfl⟩ := hencodes
      have hlater : ¬ Encodes (terminated lineFeed closed ++ last) := by
        rintro ⟨later, hlater⟩
        refine h ⟨text ++ '\n' :: later, ?_⟩
        rw [terminated_cons, hlater, encode_append, encode_lineFeed_cons]
      obtain ⟨front, flaw, rest, heq, hflaw⟩ := ih hclosed' hlater
      obtain ⟨start, rfl⟩ := encodes_iff.2 hflaw.front_valid
      refine ⟨encode (text ++ '\n' :: start), flaw, rest, ?_, { hflaw with
        front_valid := encodes_iff.1 ⟨_, rfl⟩
        front_whole := Or.inr ?_ }⟩
      · rw [terminated_cons, heq, encode_append, encode_lineFeed_cons, List.append_assoc]
        rfl
      · rw [encode_append, encode_lineFeed_cons]
        rcases hflaw.front_whole with hnil | hfeed
        · rw [hnil, List.getLast?_concat]
        · rw [List.getLast?_append, List.getLast?_cons, hfeed]
          rfl
    · refine ⟨[], p, lineFeed :: (terminated lineFeed closed ++ last), ?_, ?_⟩
      · rw [terminated_cons]
        rfl
      · exact ⟨encodes_iff.1 ⟨[], rfl⟩, Or.inl rfl, hp, mt encodes_iff.2 hencodes, Or.inr rfl⟩

/-! ### All byte strings -/

/-- How a line ends. -/
inductive LineEnd where
  /-- With a line feed. -/
  | feed
  /-- With a carriage return and a line feed. -/
  | returnFeed
  deriving DecidableEq, Repr

/-- The characters of a line's end. -/
def LineEnd.chars : LineEnd → List Char
  | feed => ['\n']
  | returnFeed => ['\r', '\n']

/-- A text that stands on a line, and how the line ends. -/
structure WrittenLine where
  /-- The text. -/
  text : String
  /-- How the line ends. -/
  ending : LineEnd
  /-- The text is on one line. -/
  noFeed : '\n' ∉ text.toList
  /-- The text does not end as if the end of the line began there. -/
  noReturn : ending = .feed → text.toList.getLast? ≠ some '\r'

/-- The line with its end. -/
def WrittenLine.chars (l : WrittenLine) : List Char := l.text.toList ++ l.ending.chars

/-- The piece in front of the line feed. -/
def WrittenLine.piece (l : WrittenLine) : List Char :=
  match l.ending with
  | .feed => l.text.toList
  | .returnFeed => l.text.toList ++ ['\r']

namespace WrittenLine

variable (l : WrittenLine)

theorem chars_eq : l.chars = l.piece ++ ['\n'] := by
  unfold chars piece
  cases l.ending <;> simp [LineEnd.chars]

theorem not_mem_piece : '\n' ∉ l.piece := by
  unfold piece
  split
  · exact l.noFeed
  · simp [l.noFeed]

theorem withoutReturn_piece : withoutReturn l.piece = l.text.toList := by
  unfold piece
  split
  · next hfeed => exact if_neg (l.noReturn hfeed)
  · exact withoutReturn_concat _

/-- Written lines are read as they were. -/
theorem textLines_flatMap_chars (ls : List WrittenLine) :
    textLines (ls.flatMap chars) = ls.map fun l => l.text.toList := by
  have hpieces : ls.flatMap chars = terminated '\n' (ls.map piece) ++ [] := by
    rw [terminated, List.flatMap_map, List.append_nil]
    exact congrArg (ls.flatMap ·) (funext chars_eq)
  have hfree : ∀ p ∈ ls.map piece, '\n' ∉ p := by
    intro p hp
    obtain ⟨l, -, rfl⟩ := List.mem_map.1 hp
    exact l.not_mem_piece
  rw [hpieces, textLines_terminated hfree List.not_mem_nil, List.map_map, lastLine, if_pos rfl,
    List.append_nil]
  exact List.map_congr_left fun l _ => l.withoutReturn_piece

end WrittenLine

/-- **The reader on every byte string.**  It delivers no error exactly if the input is valid as a
whole.  Of a text it delivers the lines; in particular it gets written lines back, whichever way
each of them ends.  Any other input has a first piece that is not valid; the reader delivers the
lines in front of it and one error, and what comes behind does not matter. -/
theorem reads_every_byte_string :
    (∀ bytes, (∀ e, .error e ∉ lines bytes) ↔ bytes.toByteArray.IsValidUTF8) ∧
      (∀ text : String, lines text.toUTF8.toList =
        (textLines text.toList).map fun line => .ok (String.ofList line)) ∧
      (∀ ls : List WrittenLine,
        lines (String.ofList (ls.flatMap WrittenLine.chars)).toUTF8.toList =
          ls.map fun l => .ok l.text) ∧
      (∀ bytes : List UInt8, ¬ bytes.toByteArray.IsValidUTF8 →
        ∃ front flaw rest, bytes = front ++ (flaw ++ rest) ∧ FirstFlaw front flaw rest) ∧
      ∀ front flaw rest, FirstFlaw front flaw rest →
        lines (front ++ (flaw ++ rest)) = lines front ++ [.error .invalidText] := by
  refine ⟨?_, ?_, ?_, ?_, ?_⟩
  · intro bytes
    rw [← encodes_iff]
    constructor
    · intro hok
      apply Classical.byContradiction
      intro hbytes
      obtain ⟨front, flaw, rest, rfl, hflaw⟩ := exists_firstFlaw hbytes
      exact hok .invalidText (by simp [hflaw.lines_eq])
    · rintro ⟨text, rfl⟩ e he
      rw [lines_encode] at he
      obtain ⟨line, -, hline⟩ := List.mem_map.1 he
      cases hline
  · intro text
    rw [toList_toUTF8]
    exact lines_encode text.toList
  · intro ls
    rw [toList_toUTF8, String.toList_ofList, lines_encode, WrittenLine.textLines_flatMap_chars,
      List.map_map]
    exact List.map_congr_left fun l _ => congrArg Except.ok String.ofList_toList
  · intro bytes hbytes
    exact exists_firstFlaw (mt encodes_iff.1 hbytes)
  · intro front flaw rest hflaw
    exact hflaw.lines_eq

/-- A line that ends with a carriage return and a line feed, and behind it the first byte of a
character whose second byte is missing. -/
theorem reads_every_byte_string_cut_short :
    FirstFlaw [97, 13, 10] [0xC3] [10, 98] ∧
      lines [97, 13, 10, 0xC3, 10, 98] = [.ok "a", .error .invalidText] := by
  have hflaw : FirstFlaw [97, 13, 10] [0xC3] [10, 98] :=
    ⟨by decide +kernel, by decide, by decide, by decide +kernel, by decide⟩
  obtain ⟨-, -, hwritten, -, h⟩ := reads_every_byte_string
  refine ⟨hflaw, (h _ _ _ hflaw).trans ?_⟩
  have hbytes : (String.ofList ['a', '\r', '\n']).toUTF8.toList = [97, 13, 10] := by decide +kernel
  have hfront := hwritten [⟨"a", .returnFeed, by decide, by decide⟩]
  rw [← hbytes]
  exact congrArg (· ++ [.error .invalidText]) hfront

end Presence.Text
