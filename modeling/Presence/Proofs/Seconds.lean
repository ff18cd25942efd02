/-
Presence/Proofs/Seconds.lean

Numbers of seconds at the console and on the command line.

A word can stand for a number of seconds in three places,

    prune word    --max-age=word    --sweep-interval=word

and each reads it with `readWord64`.  What may come between the word and the
reading is different: the console cuts its line into words, the command line cuts
its argument at the first equals sign and completes the setting
(`Options.parse_attached`).  Neither loses anything of the word, so the three agree
on what is a number, on the time that it means, and on refusing everything else.

Main result: `seconds_are_read_alike`.
-/
import Presence.Proofs.OptionGroups
import Presence.Proofs.WordLines

namespace Presence

open Text

/-- The word stands for so many seconds: it is a numeral of a number below `2^64`. -/
def MeansSeconds (word : String) (n : Nat) : Prop := Numeral n word.toList ∧ n < UInt64.size

variable {word : String} {n : Nat}

theorem MeansSeconds.readWord64_eq (h : MeansSeconds word n) : readWord64 word.toList = .ok n :=
  readWord64_eq_ok_iff.2 h

/-- A word that stands for no number is not read. -/
theorem exists_readWord64_eq_error (h : ¬ ∃ n, MeansSeconds word n) :
    ∃ why, readWord64 word.toList = .error why := by
  rcases hread : readWord64 word.toList with why | n
  · exact ⟨why, rfl⟩
  · exact absurd ⟨n, readWord64_eq_ok_iff.1 hread⟩ h

/-! ### A setting alone -/

namespace Options

/-- A setting alone, with its value attached, is what the value is read as. -/
theorem parse_attached (s : Setting) (word : String) :
    parse [s.attached word] = (({} : Given).assign s word.toList).map Given.options := by
  rw [parse, Given.takeAll_long _ [] (Argument.ofText_attached s word), Given.long_attached]
  show Except.map _ ((({} : Given).assign s word.toList).bind fun next => next.complete) = _
  rcases hnext : ({} : Given).assign s word.toList with e | next
  · rfl
  · -- a value that is attached is read at once, so there is nothing left to complete
    have hnone : next.pending = none := Given.pending_assign hnext
    rw [Except.bind, Given.complete_of_none hnone]

theorem parse_attached_of_ok (s : Setting) (h : readWord64 word.toList = .ok n) :
    parse [s.attached word] = .ok (({} : Given).add (.setting s n)).options := by
  have hnew : ({} : Given).value? s = none := by cases s <;> rfl
  rw [parse_attached, Given.assign_eq_ok_iff.2 ⟨n, h, hnew, rfl⟩]
  rfl

theorem parse_attached_of_error (s : Setting) {why : NumberError}
    (h : readWord64 word.toList = .error why) :
    parse [s.attached word] = .error (.invalidValue s word why) := by
  have hnew : (({} : Given).value? s).isSome = false := by cases s <;> rfl
  rw [parse_attached, Given.assign, hnew, h, String.ofList_toList]
  rfl

end Options

/-! ### A prune -/

namespace Command

/-- A prune of a word is what the word is read as. -/
theorem parse_prune_word (h : IsWord word.toList) :
    parse ("prune " ++ word) = (readAge word.toList).map fun age => some (prune age) := by
  have hline : ("prune " ++ word).toList = Verb.prune.name.toList ++ ' ' :: word.toList := by
    simp [Verb.name]
  obtain ⟨-, -, -, hprune⟩ := ofVerb_of_word (words_of_isWord h)
  rw [parse_verb_word .prune hline h, hprune]
  rcases readAge word.toList with e | age <;> rfl

theorem parse_prune_of_ok (h : IsWord word.toList) (hread : readWord64 word.toList = .ok n) :
    parse ("prune " ++ word) = .ok (some (prune (Age.ofSeconds n))) := by
  rw [parse_prune_word h, readAge, hread]
  rfl

theorem parse_prune_of_error (h : IsWord word.toList) {why : NumberError}
    (hread : readWord64 word.toList = .error why) :
    parse ("prune " ++ word) = .error (.invalidAge word) := by
  rw [parse_prune_word h, readAge, hread, String.ofList_toList]
  rfl

end Command

/-! ### All of them -/

/-- What takes a word that stands for a number and fails on any other accepts just these. -/
theorem accepted_iff_meansSeconds {ε α : Type} {x : Except ε α}
    (hok : ∀ n, MeansSeconds word n → ∃ a, x = .ok a)
    (herror : (¬ ∃ n, MeansSeconds word n) → ∃ e, x = .error e) :
    (∃ a, x = .ok a) ↔ ∃ n, MeansSeconds word n := by
  constructor
  · rintro ⟨a, ha⟩
    by_contra hnone
    obtain ⟨e, he⟩ := herror hnone
    rw [ha] at he
    cases he
  · rintro ⟨n, hn⟩
    exact hok n hn

/-- **Seconds are read alike everywhere.**

A word is accepted in a prune, as the maximal age and as the sweep interval exactly if it is a
numeral of a number below `2^64`: digits, perhaps behind one plus sign.  Each then means exactly
so many seconds.  Every other word is refused by all of them, as it stands, and by the command
line for the same reason in both places. -/
theorem seconds_are_read_alike (h : IsWord word.toList) :
    ((∃ c, Command.parse ("prune " ++ word) = .ok c) ↔ ∃ n, MeansSeconds word n) ∧
      ((∃ o, Options.parse ["--max-age=" ++ word] = .ok o) ↔ ∃ n, MeansSeconds word n) ∧
      ((∃ o, Options.parse ["--sweep-interval=" ++ word] = .ok o) ↔ ∃ n, MeansSeconds word n) ∧
      (∀ n, MeansSeconds word n → ∃ age : Age, age.toNanos = n * nanosPerSecond ∧
        Command.parse ("prune " ++ word) = .ok (some (.prune age)) ∧
        (∃ o, Options.parse ["--max-age=" ++ word] = .ok o ∧ o.oldest = age) ∧
        ∃ o, Options.parse ["--sweep-interval=" ++ word] = .ok o ∧ o.interval = age) ∧
      ((¬ ∃ n, MeansSeconds word n) →
        Command.parse ("prune " ++ word) = .error (.invalidAge word) ∧
        ∃ why, Options.parse ["--max-age=" ++ word] = .error (.invalidValue .maxAge word why) ∧
          Options.parse ["--sweep-interval=" ++ word] =
            .error (.invalidValue .sweepInterval word why)) := by
  have haccept (n : Nat) (hn : MeansSeconds word n) :
      Command.parse ("prune " ++ word) = .ok (some (.prune (Age.ofSeconds n))) ∧
        Options.parse ["--max-age=" ++ word] = .ok { maxAge := n } ∧
        Options.parse ["--sweep-interval=" ++ word] = .ok { sweepInterval := n } := by
    have hread := hn.readWord64_eq
    exact ⟨Command.parse_prune_of_ok h hread, Options.parse_attached_of_ok .maxAge hread,
      Options.parse_attached_of_ok .sweepInterval hread⟩
  have hrefuse (hnone : ¬ ∃ n, MeansSeconds word n) :
      Command.parse ("prune " ++ word) = .error (.invalidAge word) ∧
        ∃ why, Options.parse ["--max-age=" ++ word] = .error (.invalidValue .maxAge word why) ∧
          Options.parse ["--sweep-interval=" ++ word] =
            .error (.invalidValue .sweepInterval word why) := by
    obtain ⟨why, hread⟩ := exists_readWord64_eq_error hnone
    exact ⟨Command.parse_prune_of_error h hread, why,
      Options.parse_attached_of_error .maxAge hread,
      Options.parse_attached_of_error .sweepInterval hread⟩
  refine ⟨accepted_iff_meansSeconds ?_ ?_, accepted_iff_meansSeconds ?_ ?_,
    accepted_iff_meansSeconds ?_ ?_, ?_, hrefuse⟩
  · exact fun n hn => ⟨_, (haccept n hn).1⟩
  · exact fun hnone => ⟨_, (hrefuse hnone).1⟩
  · exact fun n hn => ⟨_, (haccept n hn).2.1⟩
  · intro hnone
    obtain ⟨-, why, hage, -⟩ := hrefuse hnone
    exact ⟨_, hage⟩
  · exact fun n hn => ⟨_, (haccept n hn).2.2⟩
  · intro hnone
    obtain ⟨-, why, -, hinterval⟩ := hrefuse hnone
    exact ⟨_, hinterval⟩
  · intro n hn
    obtain ⟨hprune, hage, hinterval⟩ := haccept n hn
    exact ⟨Age.ofSeconds n, Nat.add_zero _, hprune, ⟨_, hage, rfl⟩, ⟨_, hinterval, rfl⟩⟩

/-- The greatest number behind a plus sign and zeros, and what is one more. -/
theorem seconds_are_read_alike_at_the_limit :
    (∃ age : Age, age.toNanos = 18446744073709551615 * nanosPerSecond ∧
        Command.parse "prune +00018446744073709551615" = .ok (some (.prune age)) ∧
        (∃ o, Options.parse ["--max-age=+00018446744073709551615"] = .ok o ∧ o.oldest = age) ∧
        ∃ o, Options.parse ["--sweep-interval=+00018446744073709551615"] = .ok o ∧
          o.interval = age) ∧
      Command.parse "prune 18446744073709551616" = .error (.invalidAge "18446744073709551616") ∧
      ∃ why, Options.parse ["--max-age=18446744073709551616"] =
          .error (.invalidValue .maxAge "18446744073709551616" why) ∧
        Options.parse ["--sweep-interval=18446744073709551616"] =
          .error (.invalidValue .sweepInterval "18446744073709551616" why) := by
  have hgreatest : MeansSeconds "+00018446744073709551615" 18446744073709551615 :=
    readWord64_eq_ok_iff.1 (by decide)
  have hmore : ¬ ∃ n, MeansSeconds "18446744073709551616" n := by
    rintro ⟨n, hn⟩
    have hread : readWord64 "18446744073709551616".toList = .error .tooLarge := by decide
    rw [hn.readWord64_eq] at hread
    cases hread
  obtain ⟨-, -, -, haccept, -⟩ :=
    seconds_are_read_alike (by decide : IsWord "+00018446744073709551615".toList)
  obtain ⟨-, -, -, -, hrefuse⟩ :=
    seconds_are_read_alike (by decide : IsWord "18446744073709551616".toList)
  exact ⟨haccept _ hgreatest, hrefuse hmore⟩

end Presence
