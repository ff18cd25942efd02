/-
Presence/Proofs/OptionGroups.lean

The grammar of the command line.

Accepted arguments are groups, one behind the other (`Options.Grouped`).  Each group
makes one choice,

    --max-age V           --max-age=V           a number of seconds
    --sweep-interval V    --sweep-interval=V    likewise
    --no-sweeper          --no-console          a switch

where V is a numeral of a number below `2^64`, and `--` may stand at the end.

The reader does not see groups.  It goes from argument to argument, and whether one
is a value depends on the one before it; a value that stands apart is read when the
next option comes or the arguments end.  It does make no difference, though, if such
a value is read at once (`Given.takeAll_of_value`).  So, once nothing waits to be
completed,

* a group in front is taken if its option has not been given before, and its choice
  is added to those made (`Given.takeAll_group`);
* arguments that are accepted begin with a group, or there is none
  (`Given.exists_group`).

Along the list this gives the grammar in both directions (`Given.takeAll_grouped`,
`Given.exists_grouped`).  What is given in the end is the choices, whatever their
order (`Given.value?_foldl_add`, `Given.mem_switches_foldl_add`), so the options are
determined by them (`Options.Follows.unique`).

Main result: `command_line_grammar`.
-/
import Presence.Proofs.CommandLine
import Presence.Proofs.Digits

namespace Presence

open Text

/-! ### Groups -/

namespace Options

/-- What a user chooses with one option. -/
inductive Choice where
  /-- A number of seconds for a setting. -/
  | setting (s : Setting) (seconds : Nat)
  /-- A switch. -/
  | switch (s : Switch)
  deriving DecidableEq, Repr

/-- The option that the choice is made with. -/
def Choice.option : Choice → Setting ⊕ Switch
  | setting s _ => .inl s
  | switch s => .inr s

/-- The arguments are a group that makes the choice. -/
inductive Group : Choice → List String → Prop
  | apart {value : String} {n : Nat} (s : Setting) :
      Numeral n value.toList → n < UInt64.size → Group (.setting s n) [s.argument, value]
  | attached {value : String} {n : Nat} (s : Setting) :
      Numeral n value.toList → n < UInt64.size → Group (.setting s n) [s.attached value]
  | switch (s : Switch) : s ≠ .help → s ≠ .version → Group (.switch s) [s.argument]

/-- The arguments are groups that make these choices in turn, perhaps with `--` at the end. -/
inductive Grouped : List Choice → List String → Prop
  | nil : Grouped [] []
  | separator : Grouped [] ["--"]
  | cons {c : Choice} {cs : List Choice} {group rest : List String} :
      Group c group → Grouped cs rest → Grouped (c :: cs) (group ++ rest)

/-- No two choices are made with the same option. -/
def Once (cs : List Choice) : Prop := (cs.map Choice.option).Nodup

instance (cs : List Choice) : Decidable (Once cs) :=
  inferInstanceAs (Decidable (cs.map Choice.option).Nodup)

theorem Group.ne_nil {c : Choice} {group : List String} (h : Group c group) : group ≠ [] := by
  cases h <;> exact List.cons_ne_nil _ _

end Options

/-- A numeral is neither an option nor the separator. -/
theorem Argument.ofText_numeral {w : List Char} {n : Nat} (h : Numeral n w) :
    Argument.ofText w = .plain := by
  have hhead : w.head? ≠ some '-' := by
    obtain ⟨ds, hds, rfl | rfl⟩ := h
    · intro hhyphen
      exact absurd (hds.isDigit '-' (List.mem_of_mem_head? hhyphen)) (by decide)
    · simp
  unfold ofText
  split <;> simp_all

namespace Given

open Options

variable {g ready next last : Given} {s : Setting} {arg : String} {args rest : List String}
  {c d : Choice} {cs : List Choice}

/-! ### Adding a choice -/

/-- The option of the choice has not been given. -/
def Lacks (g : Given) : Choice → Prop
  | .setting s _ => g.value? s = none
  | .switch s => s ∉ g.switches

/-- The options given, with one more choice. -/
def add (g : Given) : Choice → Given
  | .setting .maxAge n => { g with maxAge := some n }
  | .setting .sweepInterval n => { g with sweepInterval := some n }
  | .switch s => { g with switches := s :: g.switches }

theorem pending_add (g : Given) (c : Choice) : (g.add c).pending = g.pending := by
  rcases c with ⟨s, n⟩ | s
  · cases s <;> rfl
  · rfl

theorem assign_eq_ok_iff {v : List Char} :
    g.assign s v = .ok next ↔ ∃ n, readWord64 v = .ok n ∧ g.value? s = none ∧
      next = g.add (.setting s n) := by
  unfold assign
  rcases hvalue : g.value? s with - | m
  · rcases readWord64 v with why | n
    · simp
    · cases s <;> simp [add, eq_comm]
  · simp

theorem assign_numeral_iff {v : List Char} {n : Nat} (hv : Numeral n v) (hn : n < UInt64.size) :
    g.assign s v = .ok next ↔ g.Lacks (.setting s n) ∧ next = g.add (.setting s n) := by
  rw [assign_eq_ok_iff, hv.readWord64_eq hn]
  simp [Lacks]

/-- A setting takes numerals only. -/
theorem exists_numeral_of_assign {v : List Char} (h : g.assign s v = .ok next) :
    ∃ n, Numeral n v ∧ n < UInt64.size := by
  obtain ⟨n, hread, -, -⟩ := assign_eq_ok_iff.1 h
  exact ⟨n, readWord64_eq_ok_iff.1 hread⟩

theorem pending_assign {v : List Char} (h : g.assign s v = .ok next) :
    next.pending = g.pending := by
  obtain ⟨n, -, -, rfl⟩ := assign_eq_ok_iff.1 h
  exact g.pending_add _

/-! ### Completing -/

theorem complete_of_none (h : g.pending = none) : g.complete = .ok g := by
  rw [complete, h]

theorem complete_of_open (h : g.pending = some ⟨s, none⟩) :
    g.complete = .error (.missingValue s) := by
  rw [complete, h]

theorem complete_of_value {v : List Char} (h : g.pending = some ⟨s, some v⟩) :
    g.complete = { g with pending := none }.assign s v := by
  rw [complete, h]

theorem pending_complete (h : g.complete = .ok ready) : ready.pending = none := by
  rcases hpending : g.pending with - | ⟨s, - | v⟩
  · rw [complete_of_none hpending] at h
    obtain rfl := Except.ok.inj h
    exact hpending
  · rw [complete_of_open hpending] at h
    cases h
  · rw [complete_of_value hpending] at h
    exact pending_assign h

/-- Whoever takes an argument while a value waits takes it as well when the value has been read. -/
theorem took_iff_of_value {v : List Char} (h : g.pending = some ⟨s, some v⟩) :
    g.Took arg next ↔ ∃ ready, g.complete = .ok ready ∧ ready.Took arg next := by
  constructor
  · intro htook
    cases htook with
    | switch t ready harg hhelp hversion hready hnew =>
      exact ⟨ready, hready,
        .switch t ready harg hhelp hversion (complete_of_none (pending_complete hready)) hnew⟩
    | setting t ready harg hready =>
      exact ⟨ready, hready, .setting t ready harg (complete_of_none (pending_complete hready))⟩
    | attached t w ready next harg hready hnext =>
      exact ⟨ready, hready,
        .attached t w ready next harg (complete_of_none (pending_complete hready)) hnext⟩
    | value t _ hpending =>
      rw [h] at hpending
      cases hpending
  · rintro ⟨ready, hready, htook⟩
    have hnone := pending_complete hready
    have hself := complete_of_none hnone
    cases htook with
    | switch t ready' harg hhelp hversion hready' hnew =>
      obtain rfl := Except.ok.inj (hself.symm.trans hready')
      exact .switch t ready harg hhelp hversion hready hnew
    | setting t ready' harg hready' =>
      obtain rfl := Except.ok.inj (hself.symm.trans hready')
      exact .setting t ready harg hready
    | attached t w ready' next harg hready' hnext =>
      obtain rfl := Except.ok.inj (hself.symm.trans hready')
      exact .attached t w ready next harg hready hnext
    | value t _ hpending =>
      rw [hnone] at hpending
      cases hpending

/-- A value that waits may as well be read at once. -/
theorem takeAll_of_value {v : List Char} (h : g.pending = some ⟨s, some v⟩) :
    g.takeAll args = .ok last ↔
      ∃ ready, g.complete = .ok ready ∧ ready.takeAll args = .ok last := by
  have hend : g.complete = .ok last ↔
      ∃ ready, g.complete = .ok ready ∧ ready.complete = .ok last := by
    constructor
    · intro hlast
      exact ⟨last, hlast, complete_of_none (pending_complete hlast)⟩
    · rintro ⟨ready, hready, hlast⟩
      rwa [complete_of_none (pending_complete hready), ← hready] at hlast
  rcases args with - | ⟨arg, rest⟩
  · exact hend
  · simp only [takeAll_cons_eq_ok_iff, took_iff_of_value h, hend]
    grind

/-! ### A group in front -/

theorem bind_eq_ok_iff {x : Except UsageError Given} {f : Given → Except UsageError Given} :
    x.bind f = .ok last ↔ ∃ next, x = .ok next ∧ f next = .ok last := by
  rcases x with e | next
  · exact iff_of_false nofun (by simp)
  · simp [Except.bind]

/-- A group in front is taken exactly if its option is new, and its choice is added. -/
theorem takeAll_group {group : List String} (h : Group c group) (hg : g.pending = none) :
    g.takeAll (group ++ rest) = .ok last ↔ g.Lacks c ∧ (g.add c).takeAll rest = .ok last := by
  have hself := complete_of_none hg
  cases h with
  | switch s hhelp hversion =>
    rw [List.singleton_append, takeAll_long g rest (Argument.ofText_switch s), long_switch,
      bind_eq_ok_iff]
    constructor
    · rintro ⟨next, hnext, hlast⟩
      obtain ⟨-, -, ready, hready, hnew, rfl⟩ := switch_eq_ok_iff.1 hnext
      obtain rfl := Except.ok.inj (hself.symm.trans hready)
      exact ⟨hnew, hlast⟩
    · rintro ⟨hnew, hlast⟩
      exact ⟨_, switch_eq_ok_iff.2 ⟨hhelp, hversion, g, hself, hnew, rfl⟩, hlast⟩
  | @attached value n s hvalue hn =>
    rw [List.singleton_append, takeAll_long g rest (Argument.ofText_attached s value),
      long_attached, hself, bind_eq_ok_iff]
    simp only [Except.bind, assign_numeral_iff hvalue hn, and_assoc]
    simp
  | @apart value n s hvalue hn =>
    rw [List.cons_append, List.singleton_append,
      takeAll_long g _ (Argument.ofText_setting s), long_setting, hself]
    show Given.takeAll { g with pending := some ⟨s, none⟩ } (value :: rest) = _ ↔ _
    rw [takeAll_plain _ rest (Argument.ofText_numeral hvalue)]
    show Given.takeAll { g with pending := some ⟨s, some value.toList⟩ } rest = _ ↔ _
    -- the value waits for what follows, but may as well be read here
    rw [takeAll_of_value rfl, complete_of_value rfl]
    have hclear : { g with pending := none } = g := by rw [← hg]
    show (∃ ready, Given.assign { g with pending := none } s value.toList = _ ∧ _) ↔ _
    simp only [hclear, assign_numeral_iff hvalue hn, and_assoc]
    simp

/-- Where a value must come, a numeral comes. -/
theorem exists_value_of_open (h : g.pending = some ⟨s, none⟩) (hlast : g.takeAll args = .ok last) :
    ∃ value n rest, args = value :: rest ∧ Numeral n value.toList ∧ n < UInt64.size := by
  have hfail := complete_of_open h
  rcases args with - | ⟨value, rest⟩
  · rw [takeAll, hfail] at hlast
    cases hlast
  · obtain ⟨-, -, hend⟩ | ⟨next, htook, hlast⟩ := takeAll_cons_eq_ok_iff.1 hlast
    · rw [hfail] at hend
      cases hend
    · cases htook with
      | value t _ hpending =>
        obtain ⟨ready, hready, -⟩ := (takeAll_of_value rfl).1 hlast
        rw [complete_of_value rfl] at hready
        obtain ⟨n, hvalue, hn⟩ := exists_numeral_of_assign hready
        exact ⟨value, n, rest, rfl, hvalue, hn⟩
      | _ =>
        -- an option would complete the setting first
        simp_all

/-- Arguments that are accepted begin with a group, unless there is none. -/
theorem exists_group (hg : g.pending = none) (h : g.takeAll args = .ok last) :
    args = [] ∨ args = ["--"] ∨ ∃ c group rest, Group c group ∧ args = group ++ rest := by
  rcases args with - | ⟨arg, rest⟩
  · exact Or.inl rfl
  · refine Or.inr ?_
    obtain ⟨harg, rfl, -⟩ | ⟨next, htook, hlast⟩ := takeAll_cons_eq_ok_iff.1 h
    · obtain rfl := Argument.ofText_eq_separator_iff.1 harg
      exact Or.inl rfl
    · refine Or.inr ?_
      cases htook with
      | switch s ready harg hhelp hversion hready hnew =>
        obtain rfl := Argument.ofText_eq_switch_iff.1 harg
        exact ⟨_, _, rest, .switch s hhelp hversion, rfl⟩
      | setting s ready harg hready =>
        obtain rfl := Argument.ofText_eq_setting_iff.1 harg
        obtain ⟨value, n, rest, rfl, hvalue, hn⟩ := exists_value_of_open rfl hlast
        exact ⟨_, _, rest, .apart s hvalue hn, rfl⟩
      | attached s v ready next harg hready hnext =>
        obtain rfl := Argument.ofText_eq_attached_iff.1 harg
        obtain ⟨n, hvalue, hn⟩ := exists_numeral_of_assign hnext
        rw [← String.toList_ofList (l := v)] at hvalue
        exact ⟨_, _, rest, .attached s hvalue hn, rfl⟩
      | value s _ hpending =>
        rw [hg] at hpending
        cases hpending

/-! ### Groups behind one another -/

/-- The choices can be added: none is made twice, and none has been made before. -/
def Admits (g : Given) (cs : List Choice) : Prop := Once cs ∧ ∀ c ∈ cs, g.Lacks c

theorem lacks_add : (g.add c).Lacks d ↔ c.option ≠ d.option ∧ g.Lacks d := by
  rcases c with ⟨s, n⟩ | s <;> rcases d with ⟨t, m⟩ | t
  · cases s <;> cases t <;> simp [add, Lacks, value?, Choice.option]
  · cases s <;> simp [add, Lacks, Choice.option]
  · cases t <;> simp [add, Lacks, value?, Choice.option]
  · simp [add, Lacks, Choice.option, eq_comm]

theorem admits_cons : g.Admits (c :: cs) ↔ g.Lacks c ∧ (g.add c).Admits cs := by
  simp only [Admits, Once, lacks_add, List.map_cons, List.nodup_cons, List.mem_map,
    List.forall_mem_cons]
  grind

/-- **Groups are accepted if their choices can be added**, and then these are what is given. -/
theorem takeAll_grouped (h : Grouped cs args) (hg : g.pending = none) :
    g.takeAll args = .ok last ↔ g.Admits cs ∧ cs.foldl add g = last := by
  have hend {g : Given} (hg : g.pending = none) :
      g.complete = .ok last ↔ g.Admits [] ∧ g = last := by
    rw [complete_of_none hg]
    simp [Admits, Once]
  induction h generalizing g with
  | nil => exact hend hg
  | separator => exact hend hg
  | @cons c cs group rest hgroup hgrouped ih =>
    have hrest : (g.add c).takeAll rest = .ok last ↔ _ := ih ((g.pending_add c).trans hg)
    rw [takeAll_group hgroup hg, hrest, admits_cons, List.foldl_cons, and_assoc]

/-- Arguments that are accepted are groups. -/
theorem exists_grouped (hg : g.pending = none) (h : g.takeAll args = .ok last) :
    ∃ cs, Grouped cs args := by
  induction hlength : args.length using Nat.strongRecOn generalizing g args with
  | ind length ih =>
    obtain rfl | rfl | ⟨c, group, rest, hgroup, rfl⟩ := exists_group hg h
    · exact ⟨[], .nil⟩
    · exact ⟨[], .separator⟩
    · obtain ⟨-, hrest⟩ := (takeAll_group hgroup hg).1 h
      have hshorter : rest.length < length := by
        have hpos := List.length_pos_iff.2 hgroup.ne_nil
        rw [List.length_append] at hlength
        omega
      obtain ⟨cs, hcs⟩ := ih _ hshorter ((g.pending_add c).trans hg) hrest rfl
      exact ⟨c :: cs, .cons hgroup hcs⟩

/-! ### What is given in the end -/

theorem mem_switches_foldl_add {t : Switch} :
    t ∈ (cs.foldl add g).switches ↔ t ∈ g.switches ∨ .switch t ∈ cs := by
  induction cs generalizing g with
  | nil => simp
  | cons c cs ih =>
    have hadd : t ∈ (g.add c).switches ↔ t ∈ g.switches ∨ .switch t = c := by
      rcases c with ⟨s, n⟩ | s
      · cases s <;> simp [add]
      · simp [add, or_comm]
    rw [List.foldl_cons, ih, hadd, List.mem_cons, or_assoc]

theorem value?_foldl_add (h : g.Admits cs) {n : Nat} :
    (cs.foldl add g).value? s = some n ↔ g.value? s = some n ∨ .setting s n ∈ cs := by
  induction cs generalizing g with
  | nil => simp
  | cons c cs ih =>
    obtain ⟨hc, hcs⟩ := admits_cons.1 h
    have hadd : (g.add c).value? s = some n ↔ g.value? s = some n ∨ .setting s n = c := by
      rcases c with ⟨t, m⟩ | t
      · cases s <;> cases t <;> simp_all [add, value?, Lacks, eq_comm]
      · cases s <;> simp [add, value?]
    rw [List.foldl_cons, ih hcs, hadd, List.mem_cons, or_assoc]

end Given

/-! ### The options -/

namespace Options

variable {o p : Options} {cs ds : List Choice} {args : List String}

/-- The number of seconds that a setting has. -/
def seconds (o : Options) : Setting → Nat
  | .maxAge => o.maxAge
  | .sweepInterval => o.sweepInterval

/-- The options are those that were chosen, and the usual ones where there was no choice. -/
structure Follows (o : Options) (cs : List Choice) : Prop where
  given : ∀ {s n}, .setting s n ∈ cs → o.seconds s = n
  usual : ∀ {s}, (∀ n, .setting s n ∉ cs) → o.seconds s = ({} : Options).seconds s
  noSweeper : o.noSweeper = true ↔ .switch .noSweeper ∈ cs
  noConsole : o.noConsole = true ↔ .switch .noConsole ∈ cs

theorem Follows.congr (h : o.Follows cs) (hmem : ∀ c, c ∈ cs ↔ c ∈ ds) : o.Follows ds where
  given hc := h.given ((hmem _).2 hc)
  usual hnone := h.usual fun n hc => hnone n ((hmem _).1 hc)
  noSweeper := h.noSweeper.trans (hmem _)
  noConsole := h.noConsole.trans (hmem _)

/-- Choices leave no freedom. -/
theorem Follows.unique (ho : o.Follows cs) (hp : p.Follows cs) : o = p := by
  have hseconds (s : Setting) : o.seconds s = p.seconds s := by
    by_cases h : ∃ n, .setting s n ∈ cs
    · obtain ⟨n, hn⟩ := h
      rw [ho.given hn, hp.given hn]
    · rw [ho.usual (not_exists.1 h), hp.usual (not_exists.1 h)]
  have hage : o.maxAge = p.maxAge := hseconds .maxAge
  have hinterval : o.sweepInterval = p.sweepInterval := hseconds .sweepInterval
  have hsweeper : o.noSweeper = p.noSweeper :=
    Bool.eq_iff_iff.2 (ho.noSweeper.trans hp.noSweeper.symm)
  have hconsole : o.noConsole = p.noConsole :=
    Bool.eq_iff_iff.2 (ho.noConsole.trans hp.noConsole.symm)
  cases o
  cases p
  simp_all

/-- What is usual is no zero, so an interval of zero has been chosen. -/
theorem Follows.sweepInterval_eq_zero_iff (h : o.Follows cs) :
    o.sweepInterval = 0 ↔ .setting .sweepInterval 0 ∈ cs := by
  constructor
  · intro hzero
    by_cases hchosen : ∃ n, .setting .sweepInterval n ∈ cs
    · obtain ⟨n, hn⟩ := hchosen
      obtain rfl : 0 = n := hzero.symm.trans (h.given hn)
      exact hn
    · have husual : o.sweepInterval = 30 := h.usual (not_exists.1 hchosen)
      omega
  · intro hzero
    exact h.given hzero

theorem Follows.refusal?_eq (h : o.Follows cs) :
    o.refusal? = if .switch .noSweeper ∉ cs ∧ .setting .sweepInterval 0 ∈ cs then
      some "--sweep-interval must be greater than zero" else none := by
  simp only [← h.noSweeper, ← h.sweepInterval_eq_zero_iff]
  simp [refusal?]

/-- The options given when choices have been added to nothing are those chosen. -/
theorem follows_foldl_add (h : ({} : Given).Admits cs) :
    (cs.foldl Given.add {}).options.Follows cs := by
  have hvalue {s : Setting} {n : Nat} :
      (cs.foldl Given.add {}).value? s = some n ↔ .setting s n ∈ cs := by
    rw [Given.value?_foldl_add h]
    cases s <;> simp [Given.value?]
  have hswitch {t : Switch} : t ∈ (cs.foldl Given.add {}).switches ↔ .switch t ∈ cs := by
    simp [Given.mem_switches_foldl_add]
  have hseconds (g : Given) (s : Setting) :
      g.options.seconds s = (g.value? s).getD (({} : Options).seconds s) := by
    cases s <;> rfl
  exact {
    given := fun hc => by rw [hseconds, hvalue.2 hc, Option.getD_some]
    usual := fun hnone => by
      rw [hseconds, Option.eq_none_iff_forall_ne_some.2 fun n hn => hnone n (hvalue.1 hn),
        Option.getD_none]
    noSweeper := decide_eq_true_iff.trans hswitch
    noConsole := decide_eq_true_iff.trans hswitch }

theorem admits_iff_once : ({} : Given).Admits cs ↔ Once cs := by
  refine and_iff_left ?_
  rintro (⟨s, n⟩ | s) _
  · cases s <;> rfl
  · exact List.not_mem_nil

/-- Groups are read if no option is given twice, and then the options are those chosen. -/
theorem parse_grouped_iff (h : Grouped cs args) :
    parse args = .ok o ↔ Once cs ∧ o.Follows cs := by
  constructor
  · intro ho
    obtain ⟨g, hg, rfl⟩ := exists_given_of_parse ho
    obtain ⟨hadmits, rfl⟩ := (Given.takeAll_grouped h rfl).1 hg
    exact ⟨admits_iff_once.1 hadmits, follows_foldl_add hadmits⟩
  · rintro ⟨honce, ho⟩
    have hadmits := admits_iff_once.2 honce
    obtain rfl := ho.unique (follows_foldl_add hadmits)
    rw [parse, (Given.takeAll_grouped h rfl).2 ⟨hadmits, rfl⟩]
    rfl

theorem exists_grouped_of_parse (h : parse args = .ok o) : ∃ cs, Grouped cs args := by
  obtain ⟨g, hg, -⟩ := exists_given_of_parse h
  exact Given.exists_grouped rfl hg

theorem Once.exists_follows (h : Once cs) : ∃ o : Options, o.Follows cs :=
  ⟨_, follows_foldl_add (admits_iff_once.2 h)⟩

end Options

/-- **The grammar of the command line.**

Arguments are read exactly if they are groups, of which no two give the same option, and perhaps
`--` at the end.  The options are then those chosen, and the usual ones where nothing was chosen.
They are the same for every order of the groups and every spelling of each.  They are refused
exactly if the sweeper is on and zero has been chosen for the interval. -/
theorem command_line_grammar (args : List String) :
    ((∃ o, Options.parse args = .ok o) ↔ ∃ cs, Options.Grouped cs args ∧ Options.Once cs) ∧
      ∀ cs, Options.Grouped cs args → Options.Once cs →
        (∀ o, Options.parse args = .ok o ↔ o.Follows cs) ∧
        (∀ cs' args', cs'.Perm cs → Options.Grouped cs' args' →
          Options.parse args' = Options.parse args) ∧
        ∀ o, Options.parse args = .ok o →
          o.refusal? = if .switch .noSweeper ∉ cs ∧ .setting .sweepInterval 0 ∈ cs then
            some "--sweep-interval must be greater than zero" else none := by
  refine ⟨⟨?_, ?_⟩, ?_⟩
  · rintro ⟨o, ho⟩
    obtain ⟨cs, hcs⟩ := Options.exists_grouped_of_parse ho
    exact ⟨cs, hcs, ((Options.parse_grouped_iff hcs).1 ho).1⟩
  · rintro ⟨cs, hcs, honce⟩
    obtain ⟨o, ho⟩ := honce.exists_follows
    exact ⟨o, (Options.parse_grouped_iff hcs).2 ⟨honce, ho⟩⟩
  · intro cs hcs honce
    have hread {o : Options} : Options.parse args = .ok o ↔ o.Follows cs :=
      (Options.parse_grouped_iff hcs).trans (and_iff_right honce)
    refine ⟨fun o => hread, fun cs' args' hperm hcs' => ?_, fun o ho => (hread.1 ho).refusal?_eq⟩
    obtain ⟨o, ho⟩ := honce.exists_follows
    have honce' : Options.Once cs' := (hperm.map Options.Choice.option).nodup_iff.2 honce
    have ho' : o.Follows cs' := ho.congr fun c => hperm.mem_iff.symm
    rw [hread.2 ho, (Options.parse_grouped_iff hcs').2 ⟨honce', ho'⟩]

/-- The same choices in another order and spelling give the same options, which are refused. -/
theorem command_line_grammar_two_spellings :
    Options.parse ["--no-console", "--sweep-interval", "00", "--max-age=+007", "--"] =
        .ok { maxAge := 7, sweepInterval := 0, noConsole := true } ∧
      Options.parse ["--max-age", "7", "--sweep-interval=0", "--no-console"] =
        Options.parse ["--no-console", "--sweep-interval", "00", "--max-age=+007", "--"] ∧
      ({ maxAge := 7, sweepInterval := 0, noConsole := true } : Options).refusal? =
        some "--sweep-interval must be greater than zero" := by
  have h00 : Numeral 0 "00".toList := ⟨['0', '0'], ⟨by simp, by simp, rfl⟩, Or.inl rfl⟩
  have h0 : Numeral 0 "0".toList := ⟨['0'], ⟨by simp, by simp, rfl⟩, Or.inl rfl⟩
  have h007 : Numeral 7 "+007".toList :=
    ⟨['0', '0', '7'], ⟨by simp, by simp, rfl⟩, Or.inr rfl⟩
  have h7 : Numeral 7 "7".toList := ⟨['7'], ⟨by simp, by simp, rfl⟩, Or.inl rfl⟩
  have hargs : Options.Grouped
      [.switch .noConsole, .setting .sweepInterval 0, .setting .maxAge 7]
      ["--no-console", "--sweep-interval", "00", "--max-age=+007", "--"] :=
    .cons (.switch .noConsole (by decide) (by decide))
      (.cons (.apart .sweepInterval h00 (by decide))
        (.cons (.attached .maxAge h007 (by decide)) .separator))
  have hother : Options.Grouped
      [.setting .maxAge 7, .setting .sweepInterval 0, .switch .noConsole]
      ["--max-age", "7", "--sweep-interval=0", "--no-console"] :=
    .cons (.apart .maxAge h7 (by decide))
      (.cons (.attached .sweepInterval h0 (by decide))
        (.cons (.switch .noConsole (by decide) (by decide)) .nil))
  obtain ⟨-, hgroups⟩ :=
    command_line_grammar ["--no-console", "--sweep-interval", "00", "--max-age=+007", "--"]
  obtain ⟨hread, horder, hrefusal⟩ := hgroups _ hargs (by decide)
  have hoptions := (hread { maxAge := 7, sweepInterval := 0, noConsole := true }).2 {
    given := fun {s n} hc => by cases s <;> simp_all [Options.seconds]
    usual := fun {s} hnone => by
      cases s
      · exact absurd (by simp) (hnone 7)
      · exact absurd (by simp) (hnone 0)
    noSweeper := by decide
    noConsole := by decide }
  exact ⟨hoptions, horder _ _ (by decide) hother, (hrefusal _ hoptions).trans (by decide)⟩

end Presence
