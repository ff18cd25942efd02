/-
Presence/Proofs/CommandLine.lean

How arguments are taken, one by one.

Whether an argument is taken, and what it gives, depends on what it looks like and
on what has been given so far.  There are four ways for it to be taken
(`Given.Took`),

    --switch          after the setting that waits has been completed;
    --setting         likewise, and from now on this setting waits;
    --setting=value   likewise, and this setting has its value at once;
    value             if a setting waits for it;

and `--` may stand at the end.  Whatever else comes is an error
(`Given.takeAll_cons_eq_ok_iff`).  So accepted arguments are taken one after the
other, and what is true of them is shown along the list.  In particular a switch
is on exactly if it is among the arguments (`Given.mem_switches_takeAll_iff`).
-/
import Presence.Options

namespace Presence

/-! ### What arguments look like -/

namespace Setting

variable {name : List Char} {s : Setting}

theorem ofName?_name (s : Setting) : ofName? s.name.toList = some s := by
  cases s <;> decide

theorem eq_name_of_ofName? (h : ofName? name = some s) : name = s.name.toList := by
  have hname := List.find?_some h
  exact (of_decide_eq_true hname).symm

/-- The argument that gives the setting, of which the value stands apart. -/
def argument (s : Setting) : String := "--" ++ s.name

/-- The argument that gives the setting its value at once. -/
def attached (s : Setting) (value : String) : String := s.argument ++ "=" ++ value

/-- No setting has the name of a switch. -/
theorem ofName?_switch (s : Switch) : ofName? s.name.toList = none := by
  cases s <;> decide

end Setting

namespace Switch

variable {name : List Char} {s : Switch}

theorem ofName?_name (s : Switch) : ofName? s.name.toList = some s := by
  cases s <;> decide

theorem eq_name_of_ofName? (h : ofName? name = some s) : name = s.name.toList := by
  have hname := List.find?_some h
  exact (of_decide_eq_true hname).symm

theorem name_injective {s t : Switch} (h : s.name.toList = t.name.toList) : s = t := by
  have hs := s.ofName?_name
  rw [h, t.ofName?_name] at hs
  exact (Option.some.inj hs).symm

/-- The argument that gives the switch. -/
def argument (s : Switch) : String := "--" ++ s.name

end Switch

namespace Argument

variable {arg : String} {name : List Char} {value : Option (List Char)}

theorem ofText_switch (s : Switch) : ofText s.argument.toList = long s.name.toList none := by
  cases s <;> decide

theorem ofText_setting (s : Setting) : ofText s.argument.toList = long s.name.toList none := by
  cases s <;> decide

theorem ofText_attached (s : Setting) (text : String) :
    ofText (s.attached text).toList = long s.name.toList (some text.toList) := by
  cases s <;>
    simp [Setting.attached, Setting.argument, Setting.name, ofText, afterEquals]

/-- A text is what stands before its first equals sign, and the sign and what follows it. -/
theorem takeWhile_append_afterEquals (s : List Char) :
    s.takeWhile (· ≠ '=') ++ (afterEquals s).elim [] (fun v => '=' :: v) = s := by
  have hsplit := s.takeWhile_append_dropWhile (p := (· ≠ '='))
  unfold afterEquals
  split
  · next hnil => rwa [hnil] at hsplit
  · next c v hcons =>
    -- the dropping has stopped at an equals sign
    have hc := List.head?_dropWhile_not (fun c => decide (c ≠ '=')) s
    rw [hcons] at hc
    obtain rfl : c = '=' := by simpa using hc
    rwa [hcons] at hsplit

/-- An argument with two hyphens is its name behind them, and perhaps an equals sign and a value. -/
theorem eq_of_ofText_eq_long {s : List Char} (h : ofText s = long name value) :
    s = '-' :: '-' :: (name ++ value.elim [] (fun v => '=' :: v)) := by
  unfold ofText at h
  split at h
  · cases h
  · next rest _ =>
    obtain ⟨rfl, rfl⟩ := long.inj h
    rw [takeWhile_append_afterEquals]
  · cases h
  · cases h

theorem ofText_eq_switch_iff {s : Switch} :
    ofText arg.toList = long s.name.toList none ↔ arg = s.argument := by
  constructor
  · intro h
    apply String.toList_injective
    rw [eq_of_ofText_eq_long h, Switch.argument, String.toList_append]
    simp
  · rintro rfl
    exact ofText_switch s

theorem ofText_eq_setting_iff {s : Setting} :
    ofText arg.toList = long s.name.toList none ↔ arg = s.argument := by
  constructor
  · intro h
    apply String.toList_injective
    rw [eq_of_ofText_eq_long h, Setting.argument, String.toList_append]
    simp
  · rintro rfl
    exact ofText_setting s

theorem ofText_eq_attached_iff {s : Setting} {text : List Char} :
    ofText arg.toList = long s.name.toList (some text) ↔ arg = s.attached (String.ofList text) := by
  constructor
  · intro h
    apply String.toList_injective
    rw [eq_of_ofText_eq_long h, Setting.attached, Setting.argument]
    simp
  · rintro rfl
    rw [ofText_attached, String.toList_ofList]

theorem ofText_eq_separator_iff : ofText arg.toList = separator ↔ arg = "--" := by
  constructor
  · intro h
    apply String.toList_injective
    unfold ofText at h
    split at h
    · assumption
    all_goals cases h
  · rintro rfl
    rfl

end Argument

namespace Given

/-! ### What does not touch the switches -/

variable {g next last : Given} {arg : String} {rest : List String}

theorem switches_assign {s : Setting} {value : List Char} (h : g.assign s value = .ok next) :
    next.switches = g.switches := by
  unfold assign at h
  split at h
  · cases h
  · split at h
    · cases h
    · cases s <;> cases h <;> rfl

theorem switches_complete (h : g.complete = .ok next) : next.switches = g.switches := by
  unfold complete at h
  split at h
  · cases h
    rfl
  · cases h
  · have hassign := switches_assign h
    exact hassign

/-! ### One argument -/

/-- The ways in which an argument is taken, and what has been given then. -/
inductive Took (g : Given) (arg : String) : Given → Prop
  | switch (s : Switch) (ready : Given) :
      Argument.ofText arg.toList = .long s.name.toList none → s ≠ .help → s ≠ .version →
      g.complete = .ok ready → s ∉ ready.switches →
      Took g arg { ready with switches := s :: ready.switches }
  | setting (s : Setting) (ready : Given) :
      Argument.ofText arg.toList = .long s.name.toList none → g.complete = .ok ready →
      Took g arg { ready with pending := some ⟨s, none⟩ }
  | attached (s : Setting) (value : List Char) (ready next : Given) :
      Argument.ofText arg.toList = .long s.name.toList (some value) → g.complete = .ok ready →
      ready.assign s value = .ok next → Took g arg next
  | value (s : Setting) :
      Argument.ofText arg.toList = .plain → g.pending = some ⟨s, none⟩ →
      Took g arg { g with pending := some ⟨s, some arg.toList⟩ }

theorem switch_eq_ok_iff {s : Switch} :
    g.switch s = .ok next ↔ s ≠ .help ∧ s ≠ .version ∧ ∃ ready, g.complete = .ok ready ∧
      s ∉ ready.switches ∧ next = { ready with switches := s :: ready.switches } := by
  unfold switch
  rcases g.complete with e | ready
  · exact iff_of_false nofun (by simp)
  · by_cases hs : s ∈ ready.switches
    · cases s <;> simp [bind, Except.bind, hs, throw, throwThe, MonadExceptOf.throw]
    · cases s <;> simp [bind, Except.bind, hs, throw, throwThe, MonadExceptOf.throw, pure,
        Except.pure, eq_comm]

theorem long_attached (s : Setting) (value : List Char) :
    g.long s.name.toList (some value) = g.complete.bind fun ready => ready.assign s value := by
  unfold long
  rw [s.ofName?_name]
  rfl

theorem long_setting (s : Setting) :
    g.long s.name.toList none =
      g.complete.map fun ready => { ready with pending := some ⟨s, none⟩ } := by
  unfold long
  rw [s.ofName?_name]
  show g.complete.bind _ = _
  rcases g.complete with e | ready <;> rfl

theorem long_switch (s : Switch) : g.long s.name.toList none = g.switch s := by
  unfold long
  rw [Setting.ofName?_switch, s.ofName?_name]

theorem took_of_long {name : List Char} {value : Option (List Char)}
    (harg : Argument.ofText arg.toList = .long name value) (h : g.long name value = .ok next) :
    g.Took arg next := by
  rcases hsetting : Setting.ofName? name with - | s
  · rcases hswitch : Switch.ofName? name with - | s
    · unfold long at h
      rw [hsetting, hswitch] at h
      cases h
    · obtain rfl := Switch.eq_name_of_ofName? hswitch
      rcases value with - | v
      · rw [long_switch] at h
        obtain ⟨hhelp, hversion, ready, hready, hnew, rfl⟩ := switch_eq_ok_iff.1 h
        exact .switch s ready harg hhelp hversion hready hnew
      · unfold long at h
        rw [hsetting, hswitch] at h
        cases h
  · obtain rfl := Setting.eq_name_of_ofName? hsetting
    rcases value with - | v
    · rw [long_setting] at h
      rcases hready : g.complete with e | ready <;> rw [hready] at h <;> cases h
      exact .setting s ready harg hready
    · rw [long_attached] at h
      rcases hready : g.complete with e | ready <;> rw [hready] at h
      · cases h
      · exact .attached s v ready next harg hready h

/-- Options with one hyphen ask for help or the version, or there is none such. -/
theorem short_ne_ok (letter : Char) : g.short letter ≠ .ok next := by
  intro h
  unfold short at h
  split at h
  · exact (switch_eq_ok_iff.1 h).1 rfl
  · split at h
    · exact (switch_eq_ok_iff.1 h).2.1 rfl
    · cases h

theorem took_of_plain (harg : Argument.ofText arg.toList = .plain)
    (h : g.plain arg = .ok next) : g.Took arg next := by
  unfold plain at h
  split at h
  · next s hpending =>
    cases h
    exact .value s harg hpending
  · cases h

/-! ### Arguments one by one -/

section

variable (g rest)

theorem takeAll_separator_eq_ok_iff (harg : Argument.ofText arg.toList = .separator) :
    g.takeAll (arg :: rest) = .ok last ↔ rest = [] ∧ g.complete = .ok last := by
  rw [takeAll.eq_def]
  dsimp only
  rw [harg]
  cases rest with
  | nil => exact (and_iff_right rfl).symm
  | cons extra rest => exact iff_of_false nofun nofun

theorem takeAll_long {name : List Char} {value : Option (List Char)}
    (harg : Argument.ofText arg.toList = .long name value) :
    g.takeAll (arg :: rest) = (g.long name value).bind fun next => next.takeAll rest := by
  rw [takeAll.eq_def]
  dsimp only
  rw [harg]
  rfl

theorem takeAll_short {letter : Char} (harg : Argument.ofText arg.toList = .short letter) :
    g.takeAll (arg :: rest) = (g.short letter).bind fun next => next.takeAll rest := by
  rw [takeAll.eq_def]
  dsimp only
  rw [harg]
  rfl

theorem takeAll_plain (harg : Argument.ofText arg.toList = .plain) :
    g.takeAll (arg :: rest) = (g.plain arg).bind fun next => next.takeAll rest := by
  rw [takeAll.eq_def]
  dsimp only
  rw [harg]
  rfl

end

theorem Took.takeAll_eq (h : g.Took arg next) : g.takeAll (arg :: rest) = next.takeAll rest := by
  cases h with
  | switch s ready harg hhelp hversion hready hnew =>
    have hswitch := switch_eq_ok_iff.2 ⟨hhelp, hversion, ready, hready, hnew, rfl⟩
    rw [takeAll_long g rest harg, long_switch, hswitch]
    rfl
  | setting s ready harg hready =>
    rw [takeAll_long g rest harg, long_setting, hready]
    rfl
  | attached s value ready next harg hready hnext =>
    have hlong : g.long s.name.toList (some value) = .ok next := by
      rw [long_attached, hready]
      exact hnext
    rw [takeAll_long g rest harg, hlong]
    rfl
  | value s harg hpending =>
    rw [takeAll_plain g rest harg, plain, hpending]
    rfl

/-- **Arguments are accepted one by one**, each in one of the four ways, and `--` at the end. -/
theorem takeAll_cons_eq_ok_iff :
    g.takeAll (arg :: rest) = .ok last ↔
      (Argument.ofText arg.toList = .separator ∧ rest = [] ∧ g.complete = .ok last) ∨
        ∃ next, g.Took arg next ∧ next.takeAll rest = .ok last := by
  constructor
  · intro h
    rcases harg : Argument.ofText arg.toList with - | ⟨name, value⟩ | letter | -
    · exact Or.inl ⟨rfl, (takeAll_separator_eq_ok_iff g rest harg).1 h⟩
    · rw [takeAll_long g rest harg] at h
      rcases hnext : g.long name value with e | next <;> rw [hnext] at h
      · cases h
      · exact Or.inr ⟨next, took_of_long harg hnext, h⟩
    · rw [takeAll_short g rest harg] at h
      rcases hnext : g.short letter with e | next <;> rw [hnext] at h
      · cases h
      · exact absurd hnext (short_ne_ok letter)
    · rw [takeAll_plain g rest harg] at h
      rcases hnext : g.plain arg with e | next <;> rw [hnext] at h
      · cases h
      · exact Or.inr ⟨next, took_of_plain harg hnext, h⟩
  · rintro (⟨harg, rfl, hlast⟩ | ⟨next, htook, hlast⟩)
    · exact (takeAll_separator_eq_ok_iff g [] harg).2 ⟨rfl, hlast⟩
    · rw [htook.takeAll_eq, hlast]

/-! ### Switches -/

theorem Took.mem_switches_iff (h : g.Took arg next) {s : Switch} :
    s ∈ next.switches ↔ s ∈ g.switches ∨ arg = s.argument := by
  rw [← Argument.ofText_eq_switch_iff]
  cases h with
  | switch t ready harg _ _ hready _ =>
    rw [harg, switches_complete hready]
    simp only [List.mem_cons, Argument.long.injEq, and_true]
    constructor
    · rintro (rfl | hmem)
      · exact Or.inr rfl
      · exact Or.inl hmem
    · rintro (hmem | hname)
      · exact Or.inr hmem
      · exact Or.inl (Switch.name_injective hname.symm)
  | setting t ready harg hready =>
    have hname : t.name.toList ≠ s.name.toList := by
      intro heq
      have hnone := Setting.ofName?_switch s
      rw [← heq, t.ofName?_name] at hnone
      cases hnone
    simp [harg, switches_complete hready, hname]
  | attached t value ready next harg hready hnext =>
    simp [harg, switches_assign hnext, switches_complete hready]
  | value t harg _ => simp [harg]

/-- A switch is on exactly if it is among the arguments, or was on before. -/
theorem mem_switches_takeAll_iff {args : List String} (h : g.takeAll args = .ok last)
    {s : Switch} : s ∈ last.switches ↔ s ∈ g.switches ∨ s.argument ∈ args := by
  induction args generalizing g with
  | nil => simp [switches_complete h]
  | cons arg rest ih =>
    obtain ⟨harg, rfl, hlast⟩ | ⟨next, htook, hlast⟩ := takeAll_cons_eq_ok_iff.1 h
    · -- the separator is no switch
      have hne : s.argument ≠ arg := by
        rintro rfl
        rw [Argument.ofText_switch] at harg
        cases harg
      simp [switches_complete hlast, hne]
    · rw [ih hlast, htook.mem_switches_iff, List.mem_cons, or_assoc, eq_comm]

end Given

/-! ### Accepted arguments -/

namespace Options

variable {args : List String} {o : Options} (h : parse args = .ok o)

include h

theorem exists_given_of_parse : ∃ g, ({} : Given).takeAll args = .ok g ∧ o = g.options := by
  unfold parse at h
  rcases hg : ({} : Given).takeAll args with e | g <;> rw [hg] at h <;> cases h
  exact ⟨g, rfl, rfl⟩

theorem noSweeper_iff_of_parse : o.noSweeper = true ↔ "--no-sweeper" ∈ args := by
  obtain ⟨g, hg, rfl⟩ := exists_given_of_parse h
  have hswitch := Given.mem_switches_takeAll_iff hg (s := .noSweeper)
  exact decide_eq_true_iff.trans (hswitch.trans (by simp [Switch.argument, Switch.name]))

theorem noConsole_iff_of_parse : o.noConsole = true ↔ "--no-console" ∈ args := by
  obtain ⟨g, hg, rfl⟩ := exists_given_of_parse h
  have hswitch := Given.mem_switches_takeAll_iff hg (s := .noConsole)
  exact decide_eq_true_iff.trans (hswitch.trans (by simp [Switch.argument, Switch.name]))

end Options

end Presence
