/-
Presence/Proofs/IdLists.lean

Lists of ids as JSON.

The console answers a prune with an array of ids.  `idsOf` is how a client reads
such a text: an array of strings with commas between them, blanks where JSON has
them, and nothing behind it.  Whatever the ids are, what was written is read back
as it was (`idsOf_stringArray`); so an id with a quote or a comma in it is never
taken for two, and no id is lost.

As with registries, the next character tells what comes:

    "     an element
    ,     another element
    ]     the end
-/
import Presence.Console.Reply
import Presence.Json.Reader
import Presence.Proofs.Rendering

namespace Presence.Json

/-! ### The reader -/

/-- Looks for the next element of an array behind its opening bracket; tells whether there is
one.  `first` holds until an element has been read. -/
def nextElement (first : Bool) : Scan Bool := do
  match ← peek with
  | none => throw .truncated
  | some c =>
    if c = ']' then return false
    if first then return true
    if c ≠ ',' then throw .malformed
    skip
    match ← peek with
    | none => throw .truncated
    | some d => if d = ']' then throw .malformed else return true

/-- Reads texts up to the closing bracket, of which `fuel` bounds the number. -/
def readTexts : (fuel : Nat) → (first : Bool) → Scan (List String)
  | 0, _ => throw .truncated
  | fuel + 1, first => do
    if ← nextElement first then
      let text ← readText
      let texts ← readTexts fuel false
      return String.ofList text :: texts
    else
      skip
      return []

/-- Reads an array of ids. -/
def readIds : Scan (List String) := do
  match ← peek with
  | none => throw .truncated
  | some c =>
    if c = '[' then
      skip
      readTexts (← get).length.succ true
    else unfitValue

/-- The ids that a text holds as JSON. -/
def idsOf (text : String) : Except Flaw (List String) := readAll readIds text

/-! ### What is written -/

variable {rest front : List Char} (id : String) (ids : List String)

/-- What follows the first elements of an array. -/
def elementsTail (ids : List String) : List Char :=
  ids.flatMap (fun id => ',' :: string id.toList) ++ [']']

theorem elementsTail_cons :
    elementsTail (id :: ids) = [','] ++ (string id.toList ++ elementsTail ids) := by
  simp [elementsTail]

theorem stringArray_cons :
    stringArray (id :: ids) = ['['] ++ (string id.toList ++ elementsTail ids) := by
  rw [stringArray, List.map_cons, commaSeparated_cons, List.flatMap_map]
  simp [elementsTail]

theorem length_lt_elementsTail : ids.length < (elementsTail ids).length := by
  induction ids with
  | nil => exact Nat.one_pos
  | cons id rest ih =>
    rw [elementsTail_cons, List.length_append, List.length_append]
    simp only [List.length_cons, List.length_nil]
    omega

/-! ### Elements -/

theorem reads_nextElement_end (first : Bool) :
    Reads (nextElement first) [] false (']' :: rest) :=
  (reads_peek (by decide)).last Reads.pure

theorem reads_nextElement_first :
    Reads (nextElement true) [] true (string id.toList ++ front ++ rest) :=
  (reads_peek (by decide)).last Reads.pure

theorem reads_nextElement_comma :
    Reads (nextElement false) [','] true (string id.toList ++ front ++ rest) :=
  reads_look (by decide) ((reads_skip ',').last ((reads_peek (by decide)).last Reads.pure))

section

variable {id} {ids} {fuel : Nat} {first : Bool} {comma : List Char}

/-- One round of reading texts. -/
theorem reads_texts_more
    (hnext : Reads (nextElement first) comma true (string id.toList ++ front ++ rest))
    (hmore : Reads (readTexts fuel false) front ids rest) :
    Reads (readTexts (fuel + 1) first) (comma ++ (string id.toList ++ front)) (id :: ids) rest := by
  refine hnext.bind ?_
  rw [if_pos rfl]
  refine (reads_text id.toList (front ++ rest)).bind ?_
  rw [String.ofList_toList]
  exact hmore.map fun texts => id :: texts

theorem reads_texts_end : Reads (readTexts (fuel + 1) first) (elementsTail []) [] rest := by
  refine Reads.ahead (reads_nextElement_end first) ?_
  rw [if_neg Bool.false_ne_true]
  exact (reads_skip ']').map fun _ => []

end

/-- The texts behind the first ones are read one by one. -/
theorem reads_texts {fuel : Nat} (hfuel : ids.length < fuel) :
    Reads (readTexts fuel false) (elementsTail ids) ids rest := by
  obtain ⟨fuel, rfl⟩ := Nat.exists_eq_succ_of_ne_zero (Nat.ne_of_gt (Nat.zero_lt_of_lt hfuel))
  induction ids generalizing fuel with
  | nil => exact reads_texts_end
  | cons id ids ih =>
    have hmore : ids.length < fuel := Nat.lt_of_succ_lt_succ hfuel
    obtain ⟨fuel, rfl⟩ := Nat.exists_eq_succ_of_ne_zero (Nat.ne_of_gt (Nat.zero_lt_of_lt hmore))
    rw [elementsTail_cons]
    exact reads_texts_more (reads_nextElement_comma id) (ih fuel hmore)

/-! ### Whole arrays -/

theorem reads_ids : Reads readIds (stringArray ids) ids rest := by
  cases ids with
  | nil => exact reads_look (by decide) ((reads_skip '[').bind (Reads.get reads_texts_end))
  | cons id ids =>
    have htexts {fuel : Nat} (hfuel : ids.length < fuel) :
        Reads (readTexts (fuel + 1) true) ([] ++ (string id.toList ++ elementsTail ids))
          (id :: ids) rest :=
      reads_texts_more (reads_nextElement_first id) (reads_texts ids hfuel)
    rw [stringArray_cons]
    refine reads_look (by decide) ((reads_skip '[').bind (Reads.get ?_))
    refine htexts ?_
    have hlength := length_lt_elementsTail ids
    simp only [List.length_append]
    omega

/-- **An array of ids is read back as it was written**, whatever the ids are. -/
theorem idsOf_stringArray : idsOf (String.ofList (stringArray ids)) = .ok ids :=
  readAll_of_reads (reads_ids ids)

end Presence.Json
