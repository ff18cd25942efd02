/-
Presence/Proofs/CommandForms.lean

Commands as lines, and lines as commands.

A command is written with its verb, a blank, and its arguments as they are

    upsert id content     touch id     remove id     get id     list     prune secs

(`Command.written`).  What can be written so are the commands whose ids are words,
whose content does not end with a line end, and whose age is a whole number of
seconds below `2^64` (`Command.Writable`).  These are read as they were written
(`parse_written`), and a line is never read as any other command
(`writable_of_parse`).

Where a line is no command, the error names a word of it, or none
(`namesWord_of_parse`).  Both facts come from one judgment, `Sound`, on what a
reading gives; it is closed under sequencing, so that each reader is one lemma.
-/
import Presence.Command
import Presence.Proofs.Blanks
import Presence.Proofs.Digits

namespace Presence

open Text

/-! ### Verbs -/

namespace Verb

theorem isWord_name (v : Verb) : IsWord v.name.toList := by
  cases v <;> decide

theorem ofName?_name (v : Verb) : ofName? v.name.toList = some v := by
  cases v <;> decide

theorem eq_name_of_ofName? {v : Verb} {word : List Char} (h : ofName? word = some v) :
    word = v.name.toList := by
  have hname := List.find?_some h
  exact (of_decide_eq_true hname).symm

end Verb

/-- The word that an error names is a word. -/
def CommandError.NamesWord : CommandError → Prop
  | unknownCommand word => IsWord word.toList
  | missingArgument _ => True
  | invalidAge word => IsWord word.toList
  | unexpectedArgument word => IsWord word.toList

namespace Command

/-! ### Writing -/

/-- The command as a line. -/
def written : Command → String
  | upsert id content => "upsert " ++ id ++ " " ++ content
  | touch id => "touch " ++ id
  | remove id => "remove " ++ id
  | get id => "get " ++ id
  | list => "list"
  | prune maxAge => "prune " ++ String.ofList (decimal maxAge.sec)

/-- The command can be written as a line. -/
def Writable : Command → Prop
  | upsert id content => IsWord id.toList ∧ EndsPlain content.toList
  | touch id => IsWord id.toList
  | remove id => IsWord id.toList
  | get id => IsWord id.toList
  | list => True
  | prune maxAge => ∃ secs < UInt64.size, maxAge = Age.ofSeconds secs

/-! ### Reading what is written -/

section

variable {args w : List Char} {line : String}

/-- A line that begins with a verb holds a command of this verb. -/
theorem parse_eq (verb : Verb) (hverb : firstWord line.toList = verb.name.toList)
    (hplain : EndsPlain line.toList) :
    parse line = (ofVerb verb (skipBlanks (afterFirstWord line.toList))).map some := by
  have hne : firstWord line.toList ≠ [] := by
    rw [hverb]
    exact verb.isWord_name.nonempty
  rw [parse, dropLineEnds_of_endsPlain hplain, skipBlanks_of_head (isBlank_head_of_firstWord hne)]
  split
  · next hnil =>
    rw [hnil] at hne
    exact absurd rfl hne
  · rw [hverb, verb.ofName?_name]
    dsimp only
    rcases ofVerb verb (skipBlanks (afterFirstWord line.toList)) with e | c <;> rfl

/-- A verb, a blank and arguments that do not begin with a blank. -/
theorem parse_verb_args (verb : Verb) (hline : line.toList = verb.name.toList ++ ' ' :: args)
    (hhead : ∀ c ∈ args.head?, isBlank c = false) (hplain : EndsPlain (' ' :: args)) :
    parse line = (ofVerb verb args).map some := by
  have hverb := verb.isWord_name.blankFree
  rw [parse_eq verb, hline, afterFirstWord_append hverb (by decide), skipBlanks_of_head hhead]
  · rw [hline, firstWord_append hverb (by decide)]
  · rw [hline]
    exact hplain.append (List.cons_ne_nil _ _)

theorem soleArgument_of_isWord (verb : Verb) (h : IsWord w) : soleArgument verb w = .ok w := by
  rw [soleArgument, words_of_isWord h]
  rfl

/-- A verb, a blank and a word. -/
theorem parse_verb_word (verb : Verb) (hline : line.toList = verb.name.toList ++ ' ' :: w)
    (h : IsWord w) : parse line = (ofVerb verb w).map some := by
  refine parse_verb_args verb hline ?_ ?_
  · have hhead := h.head (t := [])
    rwa [List.append_nil] at hhead
  · exact (EndsPlain.of_blankFree h.blankFree).append (s := [' ']) h.nonempty

end

theorem isWord_decimal (n : Nat) : IsWord (decimal n) :=
  ⟨(writes_decimal n).nonempty, fun c hc => isBlank_of_isDigit ((writes_decimal n).isDigit c hc)⟩

/-- **A command that can be written is read as it was written.** -/
theorem parse_written {c : Command} (h : c.Writable) : parse c.written = .ok (some c) := by
  cases c with
  | upsert id content =>
    obtain ⟨hid, hcontent⟩ := h
    have hline : (upsert id content).written.toList =
        Verb.upsert.name.toList ++ ' ' :: (id.toList ++ ' ' :: content.toList) := by
      simp [written, Verb.name]
    have hplain : EndsPlain (' ' :: content.toList) := by
      by_cases hnil : content.toList = []
      · rw [hnil]
        decide
      · exact hcontent.append (s := [' ']) hnil
    rw [parse_verb_args .upsert hline hid.head
      (hplain.append (s := ' ' :: id.toList) (List.cons_ne_nil _ _)), ofVerb,
      firstWord_append hid.blankFree (by decide), afterFirstWord_append hid.blankFree (by decide)]
    split
    · next hnil => exact absurd hnil hid.nonempty
    · simp [Except.map]
  | touch id =>
    rw [parse_verb_word .touch (by simp [written, Verb.name]) h, ofVerb,
      soleArgument_of_isWord .touch h]
    show Except.ok (some (touch (String.ofList id.toList))) = _
    rw [String.ofList_toList]
  | remove id =>
    rw [parse_verb_word .remove (by simp [written, Verb.name]) h, ofVerb,
      soleArgument_of_isWord .remove h]
    show Except.ok (some (remove (String.ofList id.toList))) = _
    rw [String.ofList_toList]
  | get id =>
    rw [parse_verb_word .get (by simp [written, Verb.name]) h, ofVerb,
      soleArgument_of_isWord .get h]
    show Except.ok (some (get (String.ofList id.toList))) = _
    rw [String.ofList_toList]
  | list => decide +kernel
  | prune maxAge =>
    obtain ⟨secs, hsecs, rfl⟩ := h
    have hword := isWord_decimal secs
    have hage : readAge (decimal secs) = .ok (Age.ofSeconds secs) := by
      rw [readAge, (writes_decimal secs).readWord64_eq hsecs]
    rw [parse_verb_word .prune (by simp [written, Verb.name, Age.ofSeconds]) hword, ofVerb,
      soleArgument_of_isWord .prune hword]
    show Except.map some (prune <$> readAge (decimal secs)) = _
    rw [hage]
    rfl

/-! ### What a command comes from -/

/-- The verb of a command. -/
def verb : Command → Verb
  | upsert _ _ => .upsert
  | touch _ => .touch
  | remove _ => .remove
  | get _ => .get
  | list => .list
  | prune _ => .prune

/-- What succeeds in two parts succeeds in each of them. -/
theorem exists_of_bind_eq_ok {ε α β : Type} {x : Except ε α} {f : α → Except ε β} {b : β}
    (h : x >>= f = .ok b) : ∃ a, x = .ok a ∧ f a = .ok b := by
  rcases x with e | a
  · cases h
  · exact ⟨a, rfl, h⟩

/-- A verb gives no commands but its own. -/
theorem verb_of_ofVerb {v : Verb} {args : List Char} {c : Command} (h : ofVerb v args = .ok c) :
    c.verb = v := by
  cases v with
  | upsert =>
    rw [ofVerb] at h
    split at h
    · cases h
    · obtain rfl := Except.ok.inj h
      rfl
  | touch | remove | get | list =>
    obtain ⟨w, -, hc⟩ := exists_of_bind_eq_ok h
    obtain rfl := Except.ok.inj hc
    rfl
  | prune =>
    obtain ⟨w, -, hw⟩ := exists_of_bind_eq_ok h
    obtain ⟨age, -, hc⟩ := exists_of_bind_eq_ok hw
    obtain rfl := Except.ok.inj hc
    rfl

/-- A line holds a command if its first word is the command's verb, and the verb makes the command
of what follows. -/
theorem parse_eq_some_iff {line : String} {c : Command} :
    parse line = .ok (some c) ↔
      firstWord (skipBlanks (dropLineEnds line.toList)) = c.verb.name.toList ∧
        ofVerb c.verb (skipBlanks (afterFirstWord (skipBlanks (dropLineEnds line.toList)))) =
          .ok c := by
  rw [parse]
  split
  · next hnil =>
    -- a line of blanks has no first word
    refine iff_of_false nofun ?_
    rintro ⟨hverb, -⟩
    rw [hnil] at hverb
    exact c.verb.isWord_name.nonempty hverb.symm
  · constructor
    · intro h
      split at h
      · cases h
      · next v hv =>
        rcases hread : ofVerb v _ with e | c'
        · rw [hread] at h
          cases h
        · rw [hread] at h
          obtain rfl := Option.some.inj (Except.ok.inj h)
          obtain rfl := verb_of_ofVerb hread
          exact ⟨Verb.eq_name_of_ofName? hv, hread⟩
    · rintro ⟨hverb, hread⟩
      rw [hverb, c.verb.ofName?_name]
      dsimp only
      rw [hread]
      rfl

/-! ### What is read at all -/

/-- What is read has a property, and an error names a word. -/
def Sound {α : Type} (P : α → Prop) : Except CommandError α → Prop
  | .ok a => P a
  | .error e => e.NamesWord

namespace Sound

variable {α β : Type} {P : α → Prop} {Q : β → Prop} {x : Except CommandError α}

theorem bind {f : α → Except CommandError β} (hx : Sound P x) (hf : ∀ a, P a → Sound Q (f a)) :
    Sound Q (x >>= f) := by
  rcases x with e | a
  · exact hx
  · exact hf a hx

theorem map {f : α → β} (hx : Sound P x) (hf : ∀ a, P a → Q (f a)) : Sound Q (f <$> x) := by
  rcases x with e | a
  · exact hx
  · exact hf a hx

end Sound

theorem sound_noMore {ws : List (List Char)} (h : ∀ w ∈ ws, IsWord w) :
    Sound (fun _ => True) (noMore ws) := by
  rcases ws with - | ⟨w, ws⟩
  · exact trivial
  · exact (h w List.mem_cons_self).ofList

theorem sound_soleArgument (verb : Verb) (args : List Char) :
    Sound IsWord (soleArgument verb args) := by
  have hwords : ∀ w ∈ words args, IsWord w := fun w => isWord_of_mem_words
  unfold soleArgument
  split
  · exact trivial
  · next w ws heq =>
    rw [heq] at hwords
    obtain ⟨hw, hws⟩ := List.forall_mem_cons.1 hwords
    exact (sound_noMore hws).bind fun _ _ => hw

theorem sound_readAge {w : List Char} (h : IsWord w) :
    Sound (fun age => (prune age).Writable) (readAge w) := by
  unfold readAge
  split
  · next n hn => exact ⟨n, lt_of_readWord64 hn, rfl⟩
  · exact h.ofList

theorem sound_ofVerb (verb : Verb) {args : List Char} (h : EndsPlain args) :
    Sound Writable (ofVerb verb args) := by
  cases verb with
  | upsert =>
    rw [ofVerb]
    split
    · exact trivial
    · next hne =>
      refine ⟨IsWord.ofList ⟨hne, blankFree_firstWord args⟩, ?_⟩
      rw [String.toList_ofList]
      exact h.of_suffix (afterFirstWord_suffix args)
  | touch => exact (sound_soleArgument .touch args).bind fun _ => IsWord.ofList
  | remove => exact (sound_soleArgument .remove args).bind fun _ => IsWord.ofList
  | get => exact (sound_soleArgument .get args).bind fun _ => IsWord.ofList
  | list => exact (sound_noMore fun w => isWord_of_mem_words).bind fun _ _ => trivial
  | prune =>
    refine (sound_soleArgument .prune args).bind fun w hw => ?_
    exact (sound_readAge hw).bind fun age hage => hage

/-- A line holds a command that can be written, or none, or an error names a word. -/
theorem sound_parse (line : String) : Sound (fun c? => ∀ c ∈ c?, Writable c) (parse line) := by
  unfold parse
  have hhead := isBlank_head_skipBlanks (dropLineEnds line.toList)
  have hplain : EndsPlain (skipBlanks (dropLineEnds line.toList)) :=
    (endsPlain_dropLineEnds line.toList).of_suffix (skipBlanks_suffix _)
  split
  · exact fun c hc => nomatch hc
  · next hne =>
    split
    · exact (isWord_firstWord hhead hne).ofList
    · next verb _ =>
      refine (sound_ofVerb verb (hplain.of_suffix ?_)).bind fun c hc => ?_
      · exact (skipBlanks_suffix _).trans (afterFirstWord_suffix _)
      · rintro c' ⟨⟩
        exact hc

variable {line : String}

/-- **A line holds no command that could not be written.** -/
theorem writable_of_parse {c : Command} (h : parse line = .ok (some c)) : c.Writable := by
  have hsound := sound_parse line
  rw [h] at hsound
  exact hsound c rfl

theorem namesWord_of_parse {e : CommandError} (h : parse line = .error e) : e.NamesWord := by
  have hsound := sound_parse line
  rwa [h] at hsound

/-- The lines without a command are those of blanks. -/
theorem parse_eq_none_iff : parse line = .ok none ↔ ∀ c ∈ line.toList, isBlank c = true := by
  rw [← skipBlanks_dropLineEnds_eq_nil_iff]
  unfold parse
  split
  · next hnil => exact iff_of_true rfl hnil
  · next hne =>
    refine iff_of_false ?_ hne
    intro h
    split at h
    · cases h
    · generalize ofVerb _ _ = read at h
      rcases read with e | c <;> cases h

end Command

end Presence
