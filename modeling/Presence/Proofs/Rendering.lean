/-
Presence/Proofs/Rendering.lean

What the console shows of peers loses nothing.

A sighting is an object with two members, and a registry an object with one member
for each peer.  The reader is taken through them token by token.  It knows from the
next character what comes, as no token of what is written begins with a blank:

    "     a key
    ,     another member
    \x7d     the end

The members of a registry are inserted one by one into an empty one, in ascending
order, so that each of them goes to the end; what comes out is the registry that
was written (`Registry.ofList_entries`).  Rounds are never short, since every
member takes some characters.

Main result: the listing of a registry and the sightings of its peers are read back
as they were (`rendering_loses_nothing`).  It asks for instants that can be
represented, and a session has no others (`Session.representable_run`).
-/
import Presence.Console.Reply
import Presence.Json.Reader
import Presence.Proofs.Freshness
import Presence.Proofs.JsonStrings
import Presence.Proofs.Timestamps

namespace Presence

/-! ### Registries from lists -/

namespace Registry

/-- An id above all others goes to the end. -/
theorem place_of_lt {id : String} {s : Sighting} {l : List (String × Sighting)}
    (h : ∀ e ∈ l, e.1 < id) : place id s l = l ++ [(id, s)] := by
  induction l with
  | nil => rfl
  | cons e rest ih =>
    obtain ⟨key, t⟩ := e
    have hkey : key < id := h _ List.mem_cons_self
    have hne : id ≠ key := fun heq => String.lt_irrefl key (heq ▸ hkey)
    rw [place, if_neg (String.lt_asymm hkey), if_neg hne,
      ih fun e he => h e (List.mem_cons_of_mem _ he)]
    rfl

/-- Sightings with ascending ids above all others are put behind them. -/
theorem entries_foldl_insert {entries : List (String × Sighting)} {r : Registry}
    (h : Ascending (r.entries ++ entries)) :
    (entries.foldl (fun r e => r.insert e.1 e.2) r).entries = r.entries ++ entries := by
  induction entries generalizing r with
  | nil => exact (List.append_nil _).symm
  | cons e rest ih =>
    have hlast : (r.insert e.1 e.2).entries = r.entries ++ [e] :=
      place_of_lt fun e' he' => (List.pairwise_append.1 h).2.2 e' he' e List.mem_cons_self
    have hsplit : r.entries ++ e :: rest = r.entries ++ [e] ++ rest := by simp
    rw [hsplit] at h ⊢
    rw [List.foldl_cons, ih (by rwa [hlast]), hlast]

theorem ofList_entries (r : Registry) : ofList r.entries = r :=
  ext (entries_foldl_insert r.ascending)

end Registry

namespace Json

variable {rest front : List Char} {β : Type} {b : β}

/-! ### Tokens -/

theorem reads_peek {c : Char} (hc : isSpace c = false) : Reads peek [] (some c) (c :: rest) := by
  have hdrop : (c :: rest).dropWhile isSpace = c :: rest :=
    List.dropWhile_cons_of_neg (by simp [hc])
  refine Reads.get ?_
  show Reads (do
    set ((c :: rest).dropWhile isSpace)
    return ((c :: rest).dropWhile isSpace).head?) [] (some c) (c :: rest)
  rw [hdrop]
  exact Reads.set.map fun _ => some c

/-- A reader may look at the next character before it goes on. -/
theorem reads_look {c : Char} {k : Option Char → Scan β} (hc : isSpace c = false)
    (h : Reads (k (some c)) (c :: front) b rest) : Reads (peek >>= k) (c :: front) b rest :=
  Reads.ahead (reads_peek hc) h

theorem reads_punctuation {c : Char} (hc : isSpace c = false) :
    Reads (punctuation c) [c] () rest := by
  refine reads_look hc ?_
  show Reads (if c = c then skip else throw .malformed) [c] () rest
  rw [if_pos rfl]
  exact reads_skip c

theorem reads_text (text rest : List Char) : Reads readText (string text) text rest :=
  reads_look (by decide) (reads_stringText text rest)

theorem reads_instant {t : Instant} (h : t.Representable) :
    Reads readInstant (string t.timestamp) t rest := by
  refine (reads_text t.timestamp rest).last ?_
  rw [Instant.ofTimestamp?_timestamp h]
  exact Reads.pure

/-! ### Members -/

/-- A member of an object. -/
def member (key value : List Char) : List Char := string key ++ ':' :: value

/-- What follows the first members of an object. -/
def tail (members : List (List Char × List Char)) : List Char :=
  members.flatMap (fun m => ',' :: member m.1 m.2) ++ ['\x7d']

theorem commaSeparated_cons (x : List Char) (l : List (List Char)) :
    commaSeparated (x :: l) = x ++ l.flatMap (',' :: ·) := by
  induction l generalizing x with
  | nil => exact (List.append_nil x).symm
  | cons y rest ih =>
    rw [commaSeparated, ih]
    rfl

variable (key value : List Char) (members : List (List Char × List Char))

theorem tail_cons :
    tail ((key, value) :: members) = [','] ++ (member key value ++ tail members) := by
  simp [tail]

theorem object_cons :
    object ((key, value) :: members) = ['\x7b'] ++ (member key value ++ tail members) := by
  rw [object, List.map_cons, commaSeparated_cons, List.flatMap_map]
  simp [member, tail]

theorem length_lt_tail : members.length < (tail members).length := by
  induction members with
  | nil => exact Nat.one_pos
  | cons m rest ih =>
    rw [tail_cons, List.length_append, List.length_append]
    simp only [List.length_cons, List.length_nil]
    omega

theorem reads_nextMember_end (first : Bool) :
    Reads (nextMember first) [] false ('\x7d' :: rest) :=
  (reads_peek (by decide)).last Reads.pure

/-- Behind the opening bracket the first key comes next. -/
theorem reads_nextMember_first :
    Reads (nextMember true) [] true (member key value ++ front ++ rest) :=
  (reads_peek (by decide)).last Reads.pure

/-- Behind a member a comma comes next and then a key. -/
theorem reads_nextMember_comma :
    Reads (nextMember false) [','] true (member key value ++ front ++ rest) :=
  reads_look (by decide) ((reads_skip ',').last ((reads_peek (by decide)).last Reads.pure))

/-! ### Sightings -/

theorem reads_content {d : Draft} (h : d.content = none) (text : String) :
    Reads (readMember d) (member "content".toList (string text.toList))
      { d with content := some text } rest := by
  refine (reads_stringText _ _).bind ?_
  rw [if_pos rfl, h]
  refine (reads_punctuation (by decide)).bind ?_
  have hread := (reads_text text.toList rest).map fun text =>
    { d with content := some (String.ofList text) }
  rwa [String.ofList_toList] at hread

theorem reads_lastSeen {d : Draft} (h : d.lastSeen = none) {t : Instant} (ht : t.Representable) :
    Reads (readMember d) (member "last_seen".toList (string t.timestamp))
      { d with lastSeen := some t } rest := by
  refine (reads_stringText _ _).bind ?_
  rw [if_neg (by decide), if_pos rfl, h]
  refine (reads_punctuation (by decide)).bind ?_
  exact (reads_instant ht).map _

section

variable {fuel : Nat} {first : Bool} {d d' : Draft} {s : Sighting} {comma body : List Char}

/-- One round of reading members. -/
theorem reads_members_more
    (hnext : Reads (nextMember first) comma true (body ++ front ++ rest))
    (hbody : Reads (readMember d) body d' (front ++ rest))
    (hmore : Reads (readMembers fuel false d') front s rest) :
    Reads (readMembers (fuel + 1) first d) (comma ++ (body ++ front)) s rest := by
  refine hnext.bind ?_
  rw [if_pos rfl]
  exact hbody.bind hmore

theorem reads_members_end (h : d.finish? = some s) :
    Reads (readMembers (fuel + 1) first d) (tail []) s rest := by
  refine Reads.ahead (reads_nextMember_end first) ?_
  rw [if_neg Bool.false_ne_true, h]
  exact (reads_skip '\x7d').map fun _ => s

end

theorem reads_sighting {s : Sighting} (h : s.lastSeen.Representable) :
    Reads readSighting (sighting s) s rest := by
  have hmembers {fuel : Nat} (hfuel : 1 < fuel) : Reads (readMembers (fuel + 1) true {})
      ([] ++ (member "content".toList (string s.content.toList) ++
        tail [("last_seen".toList, string s.lastSeen.timestamp)])) s rest := by
    -- a round for each member and one for the end
    obtain ⟨fuel, rfl⟩ := Nat.exists_eq_add_of_le' hfuel
    refine reads_members_more (reads_nextMember_first _ _) (reads_content rfl s.content) ?_
    rw [tail_cons]
    exact reads_members_more (reads_nextMember_comma _ _) (reads_lastSeen rfl h)
      (reads_members_end rfl)
  rw [sighting, object_cons]
  refine reads_look (by decide) ((reads_skip '\x7b').bind (Reads.get ?_))
  refine hmembers ?_
  have hlength := length_lt_tail [("last_seen".toList, string s.lastSeen.timestamp)]
  simp only [List.length_append, List.length_cons, List.length_nil] at hlength ⊢
  omega

/-! ### Registries -/

/-- The members of a registry's object. -/
def entry (e : String × Sighting) : List Char × List Char := (e.1.toList, sighting e.2)

section

variable {e : String × Sighting} {fuel : Nat} {first : Bool} {r r' : Registry} {comma : List Char}

/-- One round of reading entries. -/
theorem reads_entries_more (he : e.2.lastSeen.Representable)
    (hnext : Reads (nextMember first) comma true
      (member (entry e).1 (entry e).2 ++ front ++ rest))
    (hmore : Reads (readEntries fuel false (r.insert e.1 e.2)) front r' rest) :
    Reads (readEntries (fuel + 1) first r) (comma ++ (member (entry e).1 (entry e).2 ++ front))
      r' rest := by
  refine hnext.bind ?_
  rw [if_pos rfl, member, List.append_assoc]
  refine (reads_stringText _ _).bind ((reads_punctuation (by decide)).bind ?_)
  refine (reads_sighting he).bind ?_
  show Reads (readEntries fuel false (r.insert (String.ofList e.1.toList) e.2)) front r' rest
  rw [String.ofList_toList]
  exact hmore

theorem reads_entries_end : Reads (readEntries (fuel + 1) first r) (tail []) r rest := by
  refine Reads.ahead (reads_nextMember_end first) ?_
  rw [if_neg Bool.false_ne_true]
  exact (reads_skip '\x7d').map fun _ => r

end

/-- The entries behind the first ones are inserted one by one. -/
theorem reads_entries {entries : List (String × Sighting)}
    (h : ∀ e ∈ entries, e.2.lastSeen.Representable) (r : Registry) {fuel : Nat}
    (hfuel : entries.length < fuel) :
    Reads (readEntries fuel false r) (tail (entries.map entry))
      (entries.foldl (fun r e => r.insert e.1 e.2) r) rest := by
  induction entries generalizing r fuel with
  | nil =>
    obtain ⟨fuel, rfl⟩ := Nat.exists_eq_succ_of_ne_zero (Nat.ne_of_gt hfuel)
    exact reads_entries_end
  | cons e entries ih =>
    obtain ⟨fuel, rfl⟩ := Nat.exists_eq_succ_of_ne_zero (Nat.ne_of_gt (Nat.zero_lt_of_lt hfuel))
    rw [List.map_cons, tail_cons, List.foldl_cons]
    have hrest : ∀ e ∈ entries, e.2.lastSeen.Representable :=
      fun e he => h e (List.mem_cons_of_mem _ he)
    exact reads_entries_more (h e List.mem_cons_self) (reads_nextMember_comma _ _)
      (ih hrest _ (Nat.lt_of_succ_lt_succ hfuel))

/-- What is read are the entries that were written, inserted into an empty registry. -/
theorem reads_registry {entries : List (String × Sighting)}
    (h : ∀ e ∈ entries, e.2.lastSeen.Representable) :
    Reads readRegistry (object (entries.map entry)) (Registry.ofList entries) rest := by
  cases entries with
  | nil => exact reads_look (by decide) ((reads_skip '\x7b').bind (Reads.get reads_entries_end))
  | cons e entries =>
    have hlater : ∀ e ∈ entries, e.2.lastSeen.Representable :=
      fun e he => h e (List.mem_cons_of_mem _ he)
    have hentries {fuel : Nat} (hfuel : entries.length < fuel) :
        Reads (readEntries (fuel + 1) true Registry.empty)
          ([] ++ (member (entry e).1 (entry e).2 ++ tail (entries.map entry)))
          (Registry.ofList (e :: entries)) rest :=
      reads_entries_more (h e List.mem_cons_self) (reads_nextMember_first _ _)
        (reads_entries hlater _ hfuel)
    rw [List.map_cons, object_cons]
    refine reads_look (by decide) ((reads_skip '\x7b').bind (Reads.get ?_))
    refine hentries ?_
    have hlength := length_lt_tail (entries.map entry)
    rw [List.length_map] at hlength
    simp only [List.length_append]
    omega

/-! ### Whole texts -/

theorem readAll_of_reads {α : Type} {scan : Scan α} {text : List Char} {a : α}
    (h : Reads scan text a []) : readAll scan (String.ofList text) = .ok a := by
  have hscan : scan text = .ok (a, []) := by
    rw [← List.append_nil text]
    exact h
  rw [readAll, String.toList_ofList, hscan]
  rfl

end Json

/-- Every peer was last seen at an instant that can be represented. -/
def Registry.Representable (r : Registry) : Prop := ∀ e ∈ r.entries, e.2.lastSeen.Representable

instance (r : Registry) : Decidable r.Representable :=
  inferInstanceAs (Decidable (∀ e ∈ r.entries, e.2.lastSeen.Representable))

theorem Instant.InRange.representable {t : Instant} (h : t.InRange) : t.Representable := by
  obtain ⟨hordinary, hearliest, hlatest⟩ := h
  simp only [Ordinary, nanosPerSecond] at hordinary
  simp only [toNanos, earliest, latest, nanosPerSecond] at hearliest hlatest
  refine ⟨?_, Or.inl hordinary⟩
  simp only [Timestamp.inRange, earliest, latest]
  omega

namespace Session

/-- Whatever a session does, its peers were last seen at instants that can be represented. -/
theorem representable_run (clock : Clock) (actions : List Action) :
    ((start clock).run actions).2.node.registry.Representable := by
  rintro ⟨id, x⟩ he
  have hx := Registry.find?_of_mem (Registry.ascending _) he
  exact (inRange_run clock actions id x hx).representable

end Session

namespace Reply

theorem registryOf_listing {r : Registry} (h : r.Representable) :
    Json.registryOf (listing r).text = .ok r := by
  have hread : Reads Json.readRegistry (Json.registry r) (Registry.ofList r.entries) [] :=
    Json.reads_registry h
  rw [Registry.ofList_entries] at hread
  exact Json.readAll_of_reads hread

theorem sightingOf_sighting {s : Sighting} (h : s.lastSeen.Representable) :
    Json.sightingOf (sighting s).text = .ok s :=
  Json.readAll_of_reads (Json.reads_sighting h)

end Reply

/-- **What the console shows of peers loses nothing.**  The reply to `list` is read back as the
registry that there is, and the reply to `get` as what is known of the peer.  So no two registries
have the same listing. -/
theorem rendering_loses_nothing (n : Node) (hn : n.registry.Representable) :
    (∃ reply, (Command.list.run n).result = .ok reply ∧
        Json.registryOf reply.text = .ok n.registry) ∧
      (∀ id s, n.registry.get? id = some s →
        ∃ reply, ((Command.get id).run n).result = .ok reply ∧
          Json.sightingOf reply.text = .ok s) ∧
      ∀ m : Node, m.registry.Representable → m.registry ≠ n.registry →
        ∃ reply reply', (Command.list.run m).result = .ok reply ∧
          (Command.list.run n).result = .ok reply' ∧ reply.text ≠ reply'.text := by
  have hlist (m : Node) : (Command.list.run m).result = .ok (.listing m.registry) := by
    rw [Node.run_list_eq]
  refine ⟨⟨.listing n.registry, hlist n, Reply.registryOf_listing hn⟩, ?_, ?_⟩
  · intro id s hs
    have hmem : (id, s) ∈ n.registry.entries := Registry.mem_of_find? hs
    refine ⟨.sighting s, ?_, Reply.sightingOf_sighting (hn _ hmem)⟩
    rw [Node.run_get_eq, hs]
  · intro m hm hne
    refine ⟨.listing m.registry, .listing n.registry, hlist m, hlist n, ?_⟩
    intro htext
    have hread := Reply.registryOf_listing hm
    rw [htext, Reply.registryOf_listing hn] at hread
    exact hne (Except.ok.inj hread).symm

/-- Peers without an id and with a quote, a backslash, line ends and a control character in it, one
last seen in a leap second and one before the year 0. -/
theorem rendering_loses_nothing_of_odd_peers :
    let r := Registry.ofList [("", ⟨"\x00\t", ⟨1483228799, 1500000000⟩⟩),
      ("\"\\\n", ⟨"", ⟨-62167219201, 999999999⟩⟩)]
    let n : Node := { registry := r, clock := ⟨0, 0, 0⟩ }
    n.registry.Representable ∧ ∃ reply, (Command.list.run n).result = .ok reply ∧
      Json.registryOf reply.text = .ok n.registry := by
  intro r n
  have hn : n.registry.Representable := by decide
  exact ⟨hn, (rendering_loses_nothing n hn).1⟩

end Presence
