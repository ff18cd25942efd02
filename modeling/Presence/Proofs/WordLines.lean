/-
Presence/Proofs/WordLines.lean

Lines that are read word by word.

A text is laid out as words if it is

    blanks  word  blanks  word  ...  word  blanks

where the blanks in front and at the end may be missing, but not those between two
words (`LaidOut`).  Every text is laid out as one list of words, and as no other;
it is the list that `words` gives (`laidOut_iff_words`).

An upsert has a content with blanks of its own, so it is more than its words.  For
all other lines the words are all that counts (`Command.ReadAs`):

    (none)                                 no command
    list                                   all peers
    touch id      remove id     get id     one peer
    prune secs                             the peers older than the age

and an error otherwise, which tells of a superfluous word before it tells of a bad
age.  No reader goes through the words in this way.  The line ends are cut off
first, then the verb, and the verb looks at the words of what is left; but what is
left holds the words behind the verb (`Command.exists_arguments`), so that each
verb needs to be followed only on a list of words.

Main result: `words_tell_the_command`.
-/
import Presence.Proofs.CommandForms

namespace Presence

open Text

namespace Text

variable {s t w gap ends rest behind : List Char} {ws : List String}

/-! ### Words of a text -/

theorem words_append_of_blank (hgap : ∀ c ∈ gap, isBlank c = true) (s : List Char) :
    words (gap ++ s) = words s := by
  induction gap with
  | nil => rfl
  | cons b gap ih =>
    obtain ⟨hb, hgap⟩ := List.forall_mem_cons.1 hgap
    rw [List.cons_append, words_of_isBlank hb, ih hgap]

theorem words_skipBlanks (s : List Char) : words (skipBlanks s) = words s := by
  obtain ⟨gap, hgap, hs⟩ := exists_blanks s
  conv_rhs => rw [hs]
  exact (words_append_of_blank hgap _).symm

theorem words_of_blank (h : ∀ c ∈ s, isBlank c = true) : words s = [] := by
  have hwords := words_append_of_blank h []
  rwa [List.append_nil] at hwords

/-- A word in front is the first one, and the others are those of what it carries. -/
theorem words_append_carries (hw : IsWord w) (h : Carries rest behind) :
    words (w ++ rest) = w :: words behind := by
  obtain ⟨hne, hfree⟩ := hw
  induction w with
  | nil => exact absurd rfl hne
  | cons c w ih =>
    obtain ⟨hc, hw⟩ := List.forall_mem_cons.1 hfree
    have hc : ¬ isBlank c = true := by simp [hc]
    rcases w with - | ⟨d, w⟩
    · -- the word ends here: the text ends, or there is a blank
      cases h with
      | nothing => simp [words, hc]
      | behind _ hb =>
        rw [← words_of_isBlank hb]
        simp [words, hc, hb]
    · have hd : ¬ isBlank d = true := by simp [hw d List.mem_cons_self]
      have hmore : words (d :: (w ++ rest)) = (d :: w) :: words behind :=
        ih (List.cons_ne_nil d w) hw
      show words (c :: d :: (w ++ rest)) = _
      rw [words, if_neg hc]
      simp only [if_neg hd, hmore]

/-- A text that does not begin with a blank begins with its first word. -/
theorem words_eq_cons (h : ∀ c ∈ s.head?, isBlank c = false) (hs : s ≠ []) :
    words s = firstWord s :: words (afterFirstWord s) := by
  obtain ⟨rest, hsplit, hrest⟩ := exists_carries s
  conv_lhs => rw [hsplit]
  exact words_append_carries (isWord_firstWord h hs) hrest

theorem words_eq_nil_iff : words s = [] ↔ ∀ c ∈ s, isBlank c = true := by
  constructor
  · intro h
    rw [← skipBlanks_eq_nil_iff]
    by_contra hne
    rw [← words_skipBlanks, words_eq_cons (isBlank_head_skipBlanks s) hne] at h
    exact List.cons_ne_nil _ _ h
  · exact words_of_blank

/-! ### Texts laid out as words -/

/-- The text is laid out as these words: each may have blanks in front of it, and it has a blank
behind it unless the text ends there. -/
inductive LaidOut : (ws : List String) → (s : List Char) → Prop
  | blank {gap : List Char} : (∀ c ∈ gap, isBlank c = true) → LaidOut [] gap
  | word {gap rest behind : List Char} {w : String} {ws : List String} :
      (∀ c ∈ gap, isBlank c = true) → IsWord w.toList → Carries rest behind →
      LaidOut ws behind → LaidOut (w :: ws) (gap ++ (w.toList ++ rest))

theorem LaidOut.words_eq (h : LaidOut ws s) : words s = ws.map String.toList := by
  induction h with
  | blank hgap => exact words_of_blank hgap
  | word hgap hw hrest _ ih =>
    rw [words_append_of_blank hgap, words_append_carries hw hrest, ih]
    rfl

/-- Blanks at the end do not matter. -/
theorem LaidOut.append_blank (h : LaidOut ws s) (hends : ∀ c ∈ ends, isBlank c = true) :
    LaidOut ws (s ++ ends) := by
  induction h with
  | blank hgap => exact .blank (List.forall_mem_append.2 ⟨hgap, hends⟩)
  | @word gap rest behind w ws hgap hw hrest hbehind ih =>
    rw [List.append_assoc, List.append_assoc]
    cases hrest with
    | nothing =>
      -- nothing was behind the word, so there are no further words
      obtain rfl : ws = [] := by simpa [words] using hbehind.words_eq
      rcases ends with - | ⟨b, ends⟩
      · exact .word hgap hw .nothing hbehind
      · obtain ⟨hb, hends⟩ := List.forall_mem_cons.1 hends
        exact .word hgap hw (.behind ends hb) (.blank hends)
    | behind _ hb => exact .word hgap hw (.behind _ hb) ih

/-- A text is laid out as its words. -/
theorem laidOut_of_words {l : List (List Char)} (h : words s = l) :
    LaidOut (l.map String.ofList) s := by
  induction l generalizing s with
  | nil => exact .blank (words_eq_nil_iff.1 h)
  | cons w l ih =>
    obtain ⟨gap, hgap, hs⟩ := exists_blanks s
    have hne : skipBlanks s ≠ [] := by
      intro hnil
      rw [words_of_blank (skipBlanks_eq_nil_iff.1 hnil)] at h
      exact List.cons_ne_nil _ _ h.symm
    have hhead := isBlank_head_skipBlanks s
    obtain ⟨rest, hsplit, hrest⟩ := exists_carries (skipBlanks s)
    rw [← words_skipBlanks, words_eq_cons hhead hne] at h
    obtain ⟨rfl, hl⟩ := List.cons.inj h
    have hword := LaidOut.word hgap (isWord_firstWord hhead hne).ofList hrest (ih hl)
    rwa [String.toList_ofList, ← hsplit, ← hs] at hword

/-- **A text is laid out as its words and as no other list of words.** -/
theorem laidOut_iff_words : LaidOut ws s ↔ ws = (words s).map String.ofList := by
  constructor
  · intro h
    rw [h.words_eq, List.map_map]
    simp
  · rintro rfl
    exact laidOut_of_words rfl

theorem words_dropLineEnds (s : List Char) : words (dropLineEnds s) = words s := by
  obtain ⟨ends, hends, hs⟩ := exists_lineEnds s
  have hblank : ∀ c ∈ ends, isBlank c = true := fun c hc => isBlank_of_isLineEnd (hends c hc)
  have hline := (laidOut_of_words (s := dropLineEnds s) rfl).append_blank hblank
  rw [← hs] at hline
  rw [hline.words_eq, List.map_map]
  simp

end Text

/-! ### Verbs and words -/

/-- The verb takes one word. -/
def Verb.TakesWord (v : Verb) : Prop := v = .touch ∨ v = .remove ∨ v = .get ∨ v = .prune

namespace Command

variable {line : String} {ws : List String} {args w extra : List Char} {more : List (List Char)}
  {v : Verb}

theorem soleArgument_of_words (v : Verb) (h : words args = [w]) : soleArgument v args = .ok w := by
  rw [soleArgument, h]
  rfl

/-- What the verbs that take a word make of it. -/
theorem ofVerb_of_word (h : words args = [w]) :
    ofVerb .touch args = .ok (touch (String.ofList w)) ∧
      ofVerb .remove args = .ok (remove (String.ofList w)) ∧
      ofVerb .get args = .ok (get (String.ofList w)) ∧
      ofVerb .prune args = (readAge w).map prune := by
  refine ⟨?_, ?_, ?_, ?_⟩
  all_goals
    rw [ofVerb, soleArgument_of_words _ h]
    rfl

theorem ofVerb_of_missing (hv : v ≠ .list) (h : words args = []) :
    ofVerb v args = .error (.missingArgument v) := by
  cases v with
  | upsert =>
    have hnone : firstWord args = [] := by
      apply List.takeWhile_eq_nil_iff.2
      intro hpos
      simp [words_eq_nil_iff.1 h _ (List.getElem_mem hpos)]
    rw [ofVerb, hnone]
  | list => exact absurd rfl hv
  | touch | remove | get | prune =>
    rw [ofVerb, soleArgument, h]
    rfl

theorem ofVerb_of_superfluous (hv : v.TakesWord) (h : words args = w :: extra :: more) :
    ofVerb v args = .error (.unexpectedArgument (String.ofList extra)) := by
  rcases hv with rfl | rfl | rfl | rfl
  all_goals
    rw [ofVerb, soleArgument, h]
    rfl

/-- A line that is not blank is read as its first word tells. -/
theorem parse_of_ne_nil {s : List Char} (hread : skipBlanks (dropLineEnds line.toList) = s)
    (hne : s ≠ []) :
    parse line =
      match Verb.ofName? (firstWord s) with
      | none => .error (.unknownCommand (String.ofList (firstWord s)))
      | some v => (ofVerb v (skipBlanks (afterFirstWord s))).map some := by
  rw [parse, hread]
  split
  · exact absurd rfl hne
  · rcases Verb.ofName? (firstWord s) with - | v
    · rfl
    · dsimp only
      rcases ofVerb v (skipBlanks (afterFirstWord s)) with e | c <;> rfl

/-- The first word of a line is looked up as its verb, and the arguments hold the other words. -/
theorem exists_arguments {word : String} (h : LaidOut (word :: ws) line.toList) :
    ∃ args, words args = ws.map String.toList ∧
      (∀ v : Verb, v.name = word → parse line = (ofVerb v args).map some) ∧
      ((∀ v : Verb, v.name ≠ word) → parse line = .error (.unknownCommand word)) := by
  obtain ⟨s, hread⟩ : ∃ s, skipBlanks (dropLineEnds line.toList) = s := ⟨_, rfl⟩
  have hwords : words s = word.toList :: ws.map String.toList := by
    rw [← hread, words_skipBlanks, words_dropLineEnds, h.words_eq, List.map_cons]
  have hne : s ≠ [] := by
    rintro rfl
    cases hwords
  have hhead : ∀ c ∈ s.head?, isBlank c = false := hread ▸ isBlank_head_skipBlanks _
  obtain ⟨hfirst, hrest⟩ := List.cons.inj ((words_eq_cons hhead hne).symm.trans hwords)
  refine ⟨skipBlanks (afterFirstWord s), (words_skipBlanks _).trans hrest, ?_, ?_⟩
  · rintro v rfl
    rw [parse_of_ne_nil hread hne, hfirst, v.ofName?_name]
  · intro hunknown
    rw [parse_of_ne_nil hread hne, hfirst, String.ofList_toList]
    rcases hv : Verb.ofName? word.toList with - | v
    · rfl
    · exact absurd (String.toList_injective (Verb.eq_name_of_ofName? hv)).symm (hunknown v)

/-! ### Reading by words -/

/-- How a list of words is read that is no upsert with its id. -/
inductive ReadAs : (ws : List String) → (read : Except CommandError (Option Command)) → Prop
  | blank : ReadAs [] (.ok none)
  | unknown (word : String) (more : List String) : (∀ v : Verb, v.name ≠ word) →
      ReadAs (word :: more) (.error (.unknownCommand word))
  | missing (v : Verb) : v ≠ .list → ReadAs [v.name] (.error (.missingArgument v))
  | superfluous (v : Verb) (word extra : String) (more : List String) : v.TakesWord →
      ReadAs (v.name :: word :: extra :: more) (.error (.unexpectedArgument extra))
  | list : ReadAs ["list"] (.ok (some .list))
  | listMore (extra : String) (more : List String) :
      ReadAs ("list" :: extra :: more) (.error (.unexpectedArgument extra))
  | touch (id : String) : ReadAs ["touch", id] (.ok (some (.touch id)))
  | remove (id : String) : ReadAs ["remove", id] (.ok (some (.remove id)))
  | get (id : String) : ReadAs ["get", id] (.ok (some (.get id)))
  | prune (secs : String) (n : Nat) : Numeral n secs.toList → n < UInt64.size →
      ReadAs ["prune", secs] (.ok (some (.prune (Age.ofSeconds n))))
  | badAge (word : String) : (∀ n < UInt64.size, ¬ Numeral n word.toList) →
      ReadAs ["prune", word] (.error (.invalidAge word))

theorem readAge_of_numeral {n : Nat} (h : Numeral n w) (hn : n < UInt64.size) :
    readAge w = .ok (Age.ofSeconds n) := by
  rw [readAge, h.readWord64_eq hn]

theorem readAge_of_not_numeral (h : ∀ n < UInt64.size, ¬ Numeral n w) :
    readAge w = .error (.invalidAge (String.ofList w)) := by
  rw [readAge]
  rcases hread : readWord64 w with e | n
  · rfl
  · obtain ⟨hnumeral, hn⟩ := readWord64_eq_ok_iff.1 hread
    exact absurd hnumeral (h n hn)

/-- A line that is laid out as words is read as they are. -/
theorem parse_of_readAs {read : Except CommandError (Option Command)} (h : ReadAs ws read)
    (hline : LaidOut ws line.toList) : parse line = read := by
  rcases ws with - | ⟨word, ws⟩
  · cases h
    exact parse_eq_none_iff.2 (words_eq_nil_iff.1 hline.words_eq)
  · obtain ⟨args, hargs, hverb, hunknown⟩ := exists_arguments hline
    cases h with
    | unknown _ _ h => exact hunknown h
    | missing v hv => rw [hverb v rfl, ofVerb_of_missing hv hargs, Except.map]
    | superfluous v _ extra _ hv =>
      rw [hverb v rfl, ofVerb_of_superfluous hv hargs, Except.map, String.ofList_toList]
    | list =>
      rw [hverb .list rfl, ofVerb, hargs]
      rfl
    | listMore extra more =>
      rw [hverb .list rfl, ofVerb, hargs]
      show Except.error (CommandError.unexpectedArgument (String.ofList extra.toList)) = _
      rw [String.ofList_toList]
    | touch id =>
      obtain ⟨htouch, -⟩ := ofVerb_of_word hargs
      rw [hverb .touch rfl, htouch, Except.map, String.ofList_toList]
    | remove id =>
      obtain ⟨-, hremove, -⟩ := ofVerb_of_word hargs
      rw [hverb .remove rfl, hremove, Except.map, String.ofList_toList]
    | get id =>
      obtain ⟨-, -, hget, -⟩ := ofVerb_of_word hargs
      rw [hverb .get rfl, hget, Except.map, String.ofList_toList]
    | prune secs n hsecs hn =>
      obtain ⟨-, -, -, hprune⟩ := ofVerb_of_word hargs
      rw [hverb .prune rfl, hprune, readAge_of_numeral hsecs hn]
      rfl
    | badAge secs hbad =>
      obtain ⟨-, -, -, hprune⟩ := ofVerb_of_word hargs
      rw [hverb .prune rfl, hprune, readAge_of_not_numeral hbad, String.ofList_toList]
      rfl

/-- Behind a verb that takes a word there is none, or one, or there are too many. -/
theorem exists_readAs_of_takesWord (v : Verb) (hv : v.TakesWord)
    (hsole : ∀ word, ∃ read, ReadAs [v.name, word] read) (args : List String) :
    ∃ read, ReadAs (v.name :: args) read := by
  rcases args with - | ⟨word, - | ⟨extra, more⟩⟩
  · refine ⟨_, .missing v ?_⟩
    rcases hv with rfl | rfl | rfl | rfl <;> decide
  · exact hsole word
  · exact ⟨_, .superfluous v word extra more hv⟩

/-- There is a way to read every list of words that is not an upsert with arguments. -/
theorem exists_readAs (h : ws.head? ≠ some "upsert" ∨ ws = ["upsert"]) :
    ∃ read, ReadAs ws read := by
  rcases ws with - | ⟨word, args⟩
  · exact ⟨_, .blank⟩
  · by_cases hverb : ∃ v : Verb, v.name = word
    · obtain ⟨v, rfl⟩ := hverb
      cases v with
      | upsert =>
        rcases h with h | h
        · exact absurd rfl h
        · rw [h]
          exact ⟨_, .missing .upsert (by decide)⟩
      | list =>
        rcases args with - | ⟨extra, more⟩
        · exact ⟨_, .list⟩
        · exact ⟨_, .listMore extra more⟩
      | touch =>
        exact exists_readAs_of_takesWord .touch (by simp [Verb.TakesWord])
          (fun id => ⟨_, .touch id⟩) args
      | remove =>
        exact exists_readAs_of_takesWord .remove (by simp [Verb.TakesWord])
          (fun id => ⟨_, .remove id⟩) args
      | get =>
        exact exists_readAs_of_takesWord .get (by simp [Verb.TakesWord])
          (fun id => ⟨_, .get id⟩) args
      | prune =>
        refine exists_readAs_of_takesWord .prune (by simp [Verb.TakesWord]) ?_ args
        intro word
        by_cases hage : ∃ n, n < UInt64.size ∧ Numeral n word.toList
        · obtain ⟨n, hn, hnumeral⟩ := hage
          exact ⟨_, .prune word n hnumeral hn⟩
        · exact ⟨_, .badAge word fun n hn hnumeral => hage ⟨n, hn, hnumeral⟩⟩
    · exact ⟨_, .unknown word args fun v hv => hverb ⟨v, hv⟩⟩

end Command

/-- **The words of a line tell its command**, and blanks and line ends do not.  Every line is laid
out as one list of words, and holds nothing exactly if it is empty.  If the first word is not
`upsert`, or there is no other, the line is read as the words are; an upsert alone lacks its id. -/
theorem words_tell_the_command (line : String) :
    ∃ ws, (∀ other, LaidOut other line.toList ↔ other = ws) ∧
      (Command.parse line = .ok none ↔ ws = []) ∧
      (ws.head? ≠ some "upsert" ∨ ws = ["upsert"] →
        ∀ read, Command.parse line = read ↔ Command.ReadAs ws read) := by
  refine ⟨(words line.toList).map String.ofList, fun _ => laidOut_iff_words, ?_, ?_⟩
  · rw [Command.parse_eq_none_iff, List.map_eq_nil_iff, words_eq_nil_iff]
  · intro hws read
    have hline : LaidOut ((words line.toList).map String.ofList) line.toList :=
      laidOut_iff_words.2 rfl
    constructor
    · intro hread
      obtain ⟨read', hreadAs⟩ := Command.exists_readAs hws
      rwa [← hread, Command.parse_of_readAs hreadAs hline]
    · intro hreadAs
      exact Command.parse_of_readAs hreadAs hline

/-- Blanks beyond ASCII, a line end between the words, and of a bad age and a superfluous word the
word is told. -/
theorem words_tell_the_command_word_before_age :
    let line := "\u3000prune\n\u2003-1 \u200b\t7\u0085\r\n"
    LaidOut ["prune", "-1", "\u200b", "7"] line.toList ∧
      Command.parse line = .error (.unexpectedArgument "\u200b") := by
  intro line
  have hline : LaidOut ["prune", "-1", "\u200b", "7"] line.toList :=
    laidOut_iff_words.2 (by decide +kernel)
  obtain ⟨ws, hws, -, hread⟩ := words_tell_the_command line
  obtain rfl := (hws _).1 hline
  refine ⟨hline, (hread (Or.inl (by decide)) _).2 ?_⟩
  exact .superfluous .prune "-1" "\u200b" ["7"] (by simp [Verb.TakesWord])

end Presence
