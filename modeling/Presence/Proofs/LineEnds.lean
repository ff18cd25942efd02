/-
Presence/Proofs/LineEnds.lean

It does not matter to the console how lines end.

The reader takes one carriage return off the end of a line, and the parser takes
off all line ends that are left.  What the console makes of a line is therefore the
same for all lines with the same gist

    a line of blanks          nothing
    any other line            the line without the line ends behind it
    an error                  the error

(`gist`).  A run on lines is the run on their gists (`upshot_run_gists`), and an
input whose lines end with carriage returns too, or whose last line ends in
addition, has the gists of the input itself (`gists_withReturns`,
`gists_concat_lineFeed`).

Main result: `line_ends_do_not_matter`.
-/
import Presence.Proofs.ConsoleRun
import Presence.Proofs.CommandForms
import Presence.Proofs.LineReader

namespace Presence

/-! ### Gists of lines -/

namespace Text

/-- What the console makes of a line, or of an error. -/
def gist : Except InputError String → Option (Except InputError String)
  | .ok line =>
    if skipBlanks (dropLineEnds line.toList) = [] then none
    else some (.ok (String.ofList (dropLineEnds line.toList)))
  | .error e => some (.error e)

section

variable {line : String}

theorem gist_of_blank (h : skipBlanks (dropLineEnds line.toList) = []) : gist (.ok line) = none :=
  if_pos h

theorem gist_of_not_blank (h : skipBlanks (dropLineEnds line.toList) ≠ []) :
    gist (.ok line) = some (.ok (String.ofList (dropLineEnds line.toList))) := if_neg h

end

/-- The gists of the lines of an input. -/
def gists (bytes : List UInt8) : List (Except InputError String) := (lines bytes).filterMap gist

/-- The gist of a line with those of later lines, which do not come after an error. -/
def before (later : List (Except InputError String)) :
    Option (Except InputError String) → List (Except InputError String)
  | none => later
  | some (.ok line) => .ok line :: later
  | some (.error e) => [.error e]

theorem before_nil (x : Option (Except InputError String)) : before [] x = x.toList := by
  rcases x with - | - | line <;> rfl

variable {p : List UInt8}

/-- A carriage return at the end of a line is not part of the gist. -/
theorem gist_decodeLine_concat_return (front : List UInt8) :
    gist (decodeLine (front ++ [carriageReturn])) = gist (decodeLine front) := by
  by_cases h : Encodes front
  · obtain ⟨text, rfl⟩ := h
    have hreturn : encode text ++ [carriageReturn] = encode (text ++ ['\r']) := by
      rw [encode_append, encode_carriageReturn]
    rw [hreturn, decodeLine_encode, decodeLine_encode]
    simp only [gist, String.toList_ofList, dropLineEnds_concat (c := '\r') (by decide)]
  · rw [decodeLine_eq_error_iff.2 h,
      decodeLine_eq_error_iff.2 (mt encodes_concat_return_iff.1 h)]

theorem gist_decodeLine_dropReturn (p : List UInt8) :
    gist (decodeLine (dropReturn p)) = gist (decodeLine p) := by
  unfold dropReturn
  split
  · next hreturn =>
    obtain ⟨front, rfl⟩ := List.getLast?_eq_some_iff.1 hreturn
    rw [List.dropLast_concat, gist_decodeLine_concat_return]
  · rfl

theorem gists_line (hp : lineFeed ∉ p) (rest : List UInt8) :
    gists (p ++ lineFeed :: rest) = before (gists rest) (gist (decodeLine p)) := by
  rw [← gist_decodeLine_dropReturn]
  rcases hline : decodeLine (dropReturn p) with e | line
  · rw [gists, lines_of_error hp hline]
    rfl
  · rw [gists, lines_of_ok hp hline]
    by_cases hblank : skipBlanks (dropLineEnds line.toList) = []
    · rw [List.filterMap_cons_none (gist_of_blank hblank), gist_of_blank hblank]
      rfl
    · rw [List.filterMap_cons_some (gist_of_not_blank hblank), gist_of_not_blank hblank]
      rfl

theorem gists_last (hp : lineFeed ∉ p) : gists p = before [] (gist (decodeLine p)) := by
  rw [gists, lines_of_not_mem hp, before_nil]
  unfold lastLine
  split
  · next hnil =>
    subst hnil
    decide +kernel
  · rw [List.map_singleton, List.filterMap_cons]
    rcases gist (decodeLine p) with - | line <;> rfl

/-! ### Other line ends -/

/-- A carriage return before each line feed. -/
def withReturns (bytes : List UInt8) : List UInt8 :=
  bytes.flatMap fun b => if b = lineFeed then [carriageReturn, lineFeed] else [b]

theorem withReturns_append (bytes more : List UInt8) :
    withReturns (bytes ++ more) = withReturns bytes ++ withReturns more := List.flatMap_append

theorem withReturns_of_not_mem (hp : lineFeed ∉ p) : withReturns p = p := by
  induction p with
  | nil => rfl
  | cons b rest ih =>
    obtain ⟨hb, hrest⟩ := not_or.1 (mt List.mem_cons.2 hp)
    rw [withReturns, List.flatMap_cons, if_neg (Ne.symm hb)]
    exact congrArg (b :: ·) (ih hrest)

theorem withReturns_line (hp : lineFeed ∉ p) (rest : List UInt8) :
    withReturns (p ++ lineFeed :: rest) =
      (p ++ [carriageReturn]) ++ lineFeed :: withReturns rest := by
  rw [withReturns_append, withReturns_of_not_mem hp, List.append_assoc]
  rfl

theorem gists_withReturns (bytes : List UInt8) : gists (withReturns bytes) = gists bytes := by
  obtain ⟨closed, last, hclosed, hlast, rfl⟩ := exists_terminated lineFeed bytes
  induction closed with
  | nil =>
    show gists (withReturns last) = gists last
    rw [withReturns_of_not_mem hlast]
  | cons p closed ih =>
    obtain ⟨hp, hclosed⟩ := List.forall_mem_cons.1 hclosed
    have hp' : lineFeed ∉ p ++ [carriageReturn] := List.not_mem_append hp (by decide)
    rw [terminated_cons, withReturns_line hp, gists_line hp', gists_line hp,
      gist_decodeLine_concat_return, ih hclosed]

theorem gists_concat_lineFeed (bytes : List UInt8) : gists (bytes ++ [lineFeed]) = gists bytes := by
  obtain ⟨closed, last, hclosed, hlast, rfl⟩ := exists_terminated lineFeed bytes
  induction closed with
  | nil =>
    show gists (last ++ lineFeed :: []) = gists last
    rw [gists_line hlast, gists_last hlast]
    rfl
  | cons p closed ih =>
    obtain ⟨hp, hclosed⟩ := List.forall_mem_cons.1 hclosed
    rw [terminated_cons, List.append_assoc, List.cons_append, gists_line hp, gists_line hp,
      ih hclosed]

end Text

/-! ### Responses -/

open Text

theorem Command.parse_ofList_dropLineEnds (line : String) :
    parse (String.ofList (dropLineEnds line.toList)) = parse line := by
  rw [parse, String.toList_ofList, dropLineEnds_of_endsPlain (endsPlain_dropLineEnds line.toList)]
  rfl

namespace Node

variable (n : Node)

/-- A node looks at a line only through what it reads there. -/
theorem respond_congr {line line' : String} (h : Command.parse line = Command.parse line') :
    n.respond line = n.respond line' := by
  rw [respond, respond, h]

theorem respond_of_blank {line : String} (h : skipBlanks (dropLineEnds line.toList) = []) :
    n.respond line = ⟨.ok none, n, []⟩ := by
  have hparse : Command.parse line = .ok none :=
    Command.parse_eq_none_iff.2 (skipBlanks_dropLineEnds_eq_nil_iff.1 h)
  rw [respond, hparse]

end Node

/-! ### Runs -/

namespace Console

/-- What has come of a run: everything but what has been left unread. -/
structure Upshot where
  /-- Why the console has stopped. -/
  ending : ConsoleEnd
  /-- The node worked on. -/
  node : Node
  /-- What has been written and flushed. -/
  sink : Sink
  /-- What has been logged. -/
  log : Trail Notice

/-- What has come of a console's run. -/
def upshot (c : Console) : Upshot := ⟨c.run.1, c.run.2.node, c.run.2.sink, c.run.2.log⟩

/-- The console with these lines to come. -/
def hearing (c : Console) (lines : List (Except InputError String)) : Console :=
  { c with feed := feedOfLines false lines }

section

variable (c : Console) (lines : List (Except InputError String)) {why : ConsoleEnd} {next : Console}

theorem upshot_of_step (h : c.step = (none, next)) : c.upshot = next.upshot := by
  unfold upshot
  rw [run_of_step h]

theorem upshot_of_stop (h : c.step = (some why, next)) :
    c.upshot = ⟨why, next.node, next.sink, next.log⟩ := by
  unfold upshot
  rw [run_of_stop h]

/-- What comes later does not count for a delivery. -/
theorem deliver_hearing (r : Except Fault (Option Reply)) :
    (c.hearing lines).deliver r = ((c.deliver r).1, (c.deliver r).2.hearing lines) := by
  rcases r with f | - | reply
  · rfl
  · rfl
  · unfold deliver
    dsimp only [hearing]
    rcases c.sink.sendLine reply.text with ⟨- | -, sink⟩ <;> rfl

theorem step_hearing_line (line : String) :
    (c.hearing (.ok line :: lines)).step = ((c.handle line).1, (c.handle line).2.hearing lines) := by
  have hstep : (c.hearing (.ok line :: lines)).step = (c.hearing lines).handle line := step_line rfl
  rw [hstep]
  exact (c.heard line).deliver_hearing lines (c.node.respond line).result

end

/-- Lines that hold the same lead to the same, if what comes after them does. -/
theorem upshot_hearing_congr (c : Console) {line line' : String}
    {lines lines' : List (Except InputError String)}
    (hline : Command.parse line = Command.parse line')
    (hlines : ∀ c : Console, (c.hearing lines).upshot = (c.hearing lines').upshot) :
    (c.hearing (.ok line :: lines)).upshot = (c.hearing (.ok line' :: lines')).upshot := by
  have hhandle : c.handle line' = c.handle line := by
    rw [handle, handle, c.node.respond_congr hline]
  have hstep := c.step_hearing_line lines line
  have hstep' := c.step_hearing_line lines' line'
  rw [hhandle] at hstep'
  rcases hresult : c.handle line with ⟨- | why, next⟩ <;> rw [hresult] at hstep hstep'
  · rw [upshot_of_step _ hstep, upshot_of_step _ hstep']
    exact hlines next
  · rw [upshot_of_stop _ hstep, upshot_of_stop _ hstep']
    rfl

theorem upshot_hearing_blank (c : Console) {line : String}
    (h : skipBlanks (dropLineEnds line.toList) = []) (lines : List (Except InputError String)) :
    (c.hearing (.ok line :: lines)).upshot = (c.hearing lines).upshot := by
  have hhandle : c.handle line = (none, c) := by
    rw [handle, c.node.respond_of_blank h]
    rfl
  have hstep := c.step_hearing_line lines line
  rw [hhandle] at hstep
  exact upshot_of_step _ hstep

/-- **A console does with lines what it does with their gists.** -/
theorem upshot_run_gists (c : Console) (lines : List (Except InputError String)) :
    (c.hearing lines).upshot = (c.hearing (lines.filterMap gist)).upshot := by
  induction lines generalizing c with
  | nil => rfl
  | cons line rest ih =>
    rcases line with e | line
    · -- nothing is read after an error
      have hstep (later : List (Except InputError String)) :
          (c.hearing (.error e :: later)).step = (some (.inputFailed e), _) := rfl
      rw [upshot_of_stop _ (hstep rest),
        List.filterMap_cons_some (show gist (.error e) = some (.error e) from rfl),
        upshot_of_stop _ (hstep (rest.filterMap gist))]
      rfl
    · by_cases hblank : skipBlanks (dropLineEnds line.toList) = []
      · rw [List.filterMap_cons_none (gist_of_blank hblank), upshot_hearing_blank c hblank, ih]
      · rw [List.filterMap_cons_some (gist_of_not_blank hblank)]
        exact upshot_hearing_congr c (Command.parse_ofList_dropLineEnds line).symm ih

end Console

/-- **It does not matter how lines end.**  Whatever the input, the console comes to the same end,
writes and logs the same and leaves the same node if each line feed of the input has a carriage
return before it, or if there is one more line feed behind the input. -/
theorem line_ends_do_not_matter (c : Console) (bytes : List UInt8) :
    (c.hearing (Text.lines (withReturns bytes))).upshot = (c.hearing (Text.lines bytes)).upshot ∧
      (c.hearing (Text.lines (bytes ++ [lineFeed]))).upshot =
        (c.hearing (Text.lines bytes)).upshot := by
  have hgists {other : List UInt8} (h : gists other = gists bytes) :
      (c.hearing (Text.lines other)).upshot = (c.hearing (Text.lines bytes)).upshot := by
    rw [c.upshot_run_gists, c.upshot_run_gists (Text.lines bytes)]
    exact congrArg (fun lines => (c.hearing lines).upshot) h
  exact ⟨hgists (gists_withReturns bytes), hgists (gists_concat_lineFeed bytes)⟩

end Presence
