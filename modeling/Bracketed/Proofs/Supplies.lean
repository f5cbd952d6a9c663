import Bracketed.Cli.Run
import Bracketed.Proofs.Agreement
import Bracketed.Proofs.Operands

/-!
# Supplies

A path supplies lines, or cannot be read.  The first hyphen supplies the lines of the
standard input, and later ones none.  As long as nothing troubles the output, what is
written, the notes and the verdict of some files are those of their supplies, one after
the other, up to a path that holds a null.

Whatever a run comes to, it leaves the standard input open or closed as it finds it.
-/

namespace Bracketed.Cli

/-! ## The standard input -/

section Custody

variable {limit : Nat} {width : Width} {input rest : Input} {sink : Sink} {progress : Progress}

/-- An open input is read to where its lines come, be there a layer over it or not. -/
theorem processInput_of_open (h : input.isOpen = true) :
    processInput limit width input sink =
      some (processLines limit width sink input.lines,
        input.rest (processLines limit width sink input.lines).unread) := by
  unfold processInput
  split
  · rw [Layer.over?, if_pos h]
    -- the layer is detached before it goes out of use
    exact congrArg (fun rest => some (_, rest)) (Layer.dispose_detach _)
  · next lines hlines =>
      rw [if_pos h, Input.lines, hlines]

end Custody

/-! ## Lines -/

/-- Lines as they are printed within a width. -/
def printed (limit : Nat) (width : Int) (lines : List Text) : Text :=
  lines.flatMap fun line => (format limit line.chomp width).text ++ ['\n']

/-- The reports on formatting some lines. -/
def reported (limit : Nat) (lines : List Text) : List Event :=
  lines.flatMap fun line => (examine limit line.chomp).events

/-- How a text was read is of interest to those who ask for details only. -/
theorem level_of_mem_events {limit : Nat} {text : Text} {reading : Reading Forest} {event : Event}
    (hread : Forest.read limit text = .ok reading) (h : event ∈ reading.events) :
    event.level = .debug := by
  cases Forest.tells_of_read hread with
  | read run_eq => cases h
  | @refused refusal next run_eq =>
      rcases List.mem_append.1 h with hrefusal | habandoned
      · cases refusal with
        | blank => cases hrefusal
        | unclosed bracket lead =>
            rw [List.mem_singleton.1 hrefusal]
            rfl
      · rw [List.mem_singleton.1 habandoned]
        rfl

/-- Nothing else is reported on a line, unless it nests too deep. -/
theorem level_of_mem_events_examine {limit : Nat} {text : Text} {reading : Reading Forest}
    {event : Event} (hread : Forest.read limit text = .ok reading)
    (h : event ∈ (examine limit text).events) : event.level = .debug := by
  unfold examine at h
  rw [hread] at h
  dsimp only at h
  split at h
  · rcases List.mem_append.1 h with hreading | hunstructured
    · exact level_of_mem_events hread hreading
    · rw [List.mem_singleton.1 hunstructured]
      rfl
  · exact level_of_mem_events hread h

/-- The sink is in no trouble and has been written this text. -/
structure Sink.Holds (sink : Sink) (text : Text) : Prop where
  trouble : sink.trouble = .none
  text_eq : sink.text = text

variable {limit : Nat} {width : Int} {sink : Sink} {text : Text}

namespace Sink.Holds

theorem flushFault (h : sink.Holds text) : sink.flushFault = none := by
  simp [Sink.flushFault, h.trouble]

theorem write (h : sink.Holds text) (chunk : Text) :
    ∃ next, sink.write chunk = .ok next ∧ next.Holds (text ++ chunk) := by
  have hwrite := Sink.write_of_no_trouble chunk h.trouble
  refine ⟨_, hwrite, rfl, ?_⟩
  rw [Sink.text_write hwrite, h.text_eq]

theorem writeLine (h : sink.Holds text) (line : Text) :
    ∃ next, writeLine sink line = (next, none) ∧ next.Holds (text ++ (line ++ ['\n'])) := by
  obtain ⟨middle, hmiddle, hholds⟩ := h.write line
  obtain ⟨next, hnext, hholds'⟩ := hholds.write ['\n']
  refine ⟨next, ?_, by rwa [List.append_assoc] at hholds'⟩
  rw [Cli.writeLine, hmiddle]
  dsimp only
  rw [hnext]

/-- Lines are printed to the last one. -/
theorem processLines (h : sink.Holds text) (limit : Nat) (width : Int) (lines : List Text) :
    ∃ next, processLines limit (.columns width) sink lines =
        ⟨lines.length, reported limit lines, next, [], none⟩ ∧
      next.Holds (text ++ printed limit width lines) := by
  induction lines generalizing sink text with
  | nil => exact ⟨sink, rfl, by simpa [printed] using h⟩
  | cons line rest ih =>
      obtain ⟨middle, hmiddle, hholds⟩ := h.writeLine (format limit line.chomp width).text
      obtain ⟨next, hnext, hholds'⟩ := ih hholds
      refine ⟨next, ?_, by simpa [printed] using hholds'⟩
      rw [Cli.processLines, formatWithin]
      dsimp only
      rw [hmiddle]
      dsimp only
      rw [hnext, events_format]
      rfl

end Sink.Holds

/-! ## Files -/

/-- A path, and the lines that it supplies, if it can be read. -/
structure Supply where
  path : Text
  lines : Except OpenFault (List Text)

namespace Supply

def output (limit : Nat) (width : Int) (supply : Supply) : Text :=
  match supply.lines with
  | .ok lines => printed limit width lines
  | .error _ => []

def notes (limit : Nat) (width : Int) (supply : Supply) : List Note :=
  match supply.lines with
  | .ok lines =>
      (reported limit lines).map Note.report ++
        [.report (.fileDone supply.path lines.length (.columns width))]
  | .error fault => [.message (.failure supply.path fault.reason)]

def fails (supply : Supply) : Bool :=
  match supply.lines with
  | .ok _ => false
  | .error _ => true

def verdict (supply : Supply) : Verdict :=
  if supply.fails then .failed else .done

theorem verdict_ne_stopped (supply : Supply) (ending : Ending) :
    supply.verdict ≠ .stopped ending := by
  unfold verdict
  split <;> exact Verdict.noConfusion

end Supply

section Files

variable {read : Text → Except OpenFault (List UInt8)} {path : Text} {input : Input}

/-- What a path supplies when these lines are left of the standard input. -/
def supply (read : Text → Except OpenFault (List UInt8)) (lines : List Text) (path : Text) :
    Supply :=
  ⟨path, if path = standardInput then .ok lines else (read path).map linesOfBytes⟩

theorem supply_of_ok {lines : List Text} {bytes : List UInt8} (hpath : path ≠ standardInput)
    (hread : read path = .ok bytes) :
    supply read lines path = ⟨path, .ok (linesOfBytes bytes)⟩ := by
  rw [supply, if_neg hpath, hread]
  rfl

theorem supply_of_error {lines : List Text} {fault : OpenFault} (hpath : path ≠ standardInput)
    (hread : read path = .error fault) : supply read lines path = ⟨path, .error fault⟩ := by
  rw [supply, if_neg hpath, hread]
  rfl

/-- What some paths supply, one after the other. -/
def supplies (read : Text → Except OpenFault (List UInt8)) : List Text → List Text → List Supply
  | _, [] => []
  | lines, path :: rest =>
      supply read lines path :: supplies read (if path = standardInput then [] else lines) rest

/-- The standard input behind a path. -/
def Input.behind (input : Input) (path : Text) : Input :=
  if path = standardInput then input.rest [] else input

theorem Input.lines_behind (input : Input) (path : Text) :
    (input.behind path).lines = if path = standardInput then [] else input.lines := by
  unfold behind
  split
  · exact input.lines_rest_nil
  · rfl

theorem Input.isOpen_behind (input : Input) (path : Text) :
    (input.behind path).isOpen = input.isOpen := by
  unfold behind
  split
  · exact input.isOpen_rest []
  · rfl

/-- The work on a file is told by what it supplies, if the input is open where it is needed. -/
theorem processFile_eq (h : sink.Holds text) (limit : Nat) (width : Int) (hnul : '\x00' ∉ path)
    (hopen : path = standardInput → input.isOpen = true) :
    ∃ next, processFile limit (.columns width) read path input sink =
        ⟨(supply read input.lines path).notes limit width,
          input.behind path, next, (supply read input.lines path).verdict⟩ ∧
      next.Holds (text ++ (supply read input.lines path).output limit width) := by
  unfold processFile
  by_cases hpath : path = standardInput
  · obtain ⟨next, hnext, hholds⟩ := h.processLines limit width input.lines
    have hsupply : supply read input.lines path = ⟨path, .ok input.lines⟩ := by
      rw [supply, if_pos hpath]
    rw [hsupply]
    refine ⟨next, ?_, hholds⟩
    rw [if_pos hpath, Input.behind, if_pos hpath, processInput_of_open (hopen hpath), hnext]
    rfl
  · rw [if_neg hpath, Input.behind, if_neg hpath, if_neg hnul]
    cases hread : read path with
    | error fault =>
        rw [supply_of_error hpath hread]
        exact ⟨sink, rfl, by simpa [Supply.output] using h⟩
    | ok bytes =>
        obtain ⟨next, hnext, hholds⟩ := h.processLines limit width (linesOfBytes bytes)
        rw [supply_of_ok hpath hread]
        refine ⟨next, ?_, hholds⟩
        dsimp only
        rw [hnext]
        rfl

/-- Behind a path that supplies lines or cannot be read the work goes on. -/
theorem processFiles_cons (h : sink.Holds text) (limit : Nat) (width : Int) (hnul : '\x00' ∉ path)
    (hopen : path = standardInput → input.isOpen = true) (rest : List Text) :
    ∃ next, next.Holds (text ++ (supply read input.lines path).output limit width) ∧
      processFiles limit (.columns width) read (path :: rest) input sink =
        (let later := processFiles limit (.columns width) read rest (input.behind path) next
        { later with
          notes := (supply read input.lines path).notes limit width ++ later.notes
          verdict := (supply read input.lines path).verdict.and later.verdict }) := by
  obtain ⟨next, hfile, hholds⟩ := @processFile_eq _ _ read path input h limit width hnul hopen
  refine ⟨next, hholds, ?_⟩
  rw [processFiles, hfile]
  dsimp only
  split
  · next hstopped => exact absurd hstopped (Supply.verdict_ne_stopped _ _)
  · rfl

/-- The work on some files, and on the others behind them. -/
theorem processFiles_append {paths : List Text} (h : sink.Holds text) (limit : Nat) (width : Int)
    (hnul : ∀ path ∈ paths, '\x00' ∉ path)
    (hopen : standardInput ∈ paths → input.isOpen = true) (rest : List Text) :
    ∃ next spent,
      next.Holds (text ++ (supplies read input.lines paths).flatMap (Supply.output limit width)) ∧
      processFiles limit (.columns width) read (paths ++ rest) input sink =
        (let later := processFiles limit (.columns width) read rest spent next
        { later with
          notes := (supplies read input.lines paths).flatMap (Supply.notes limit width) ++
            later.notes
          verdict := (supplies read input.lines paths).foldr
            (fun supply verdict => supply.verdict.and verdict) later.verdict }) := by
  induction paths generalizing input sink text with
  | nil => exact ⟨sink, input, by simpa [supplies] using h, rfl⟩
  | cons path paths ih =>
      obtain ⟨middle, hmiddle, hfirst⟩ := @processFiles_cons _ _ read path input h limit width
        (hnul path List.mem_cons_self) (fun hpath => hopen (hpath ▸ List.mem_cons_self))
        (paths ++ rest)
      obtain ⟨next, spent, hnext, hrest⟩ :=
        @ih _ _ (input.behind path) hmiddle
          (fun path hmem => hnul path (List.mem_cons_of_mem _ hmem))
          fun hmem => (input.isOpen_behind path).trans (hopen (List.mem_cons_of_mem _ hmem))
      rw [input.lines_behind] at hnext hrest
      refine ⟨next, spent, ?_, ?_⟩
      · simpa [supplies] using hnext
      · rw [List.cons_append, hfirst, hrest]
        simp [supplies]

/-- The verdict on files that do not stop the work. -/
theorem foldr_verdict (supplies : List Supply) :
    supplies.foldr (fun supply verdict => supply.verdict.and verdict) .done =
      if supplies.any Supply.fails then .failed else .done := by
  induction supplies with
  | nil => rfl
  | cons supply rest ih =>
      rw [List.foldr_cons, ih, List.any_cons, Supply.verdict]
      cases supply.fails <;> cases rest.any Supply.fails <;> rfl

end Files

/-! ## Runs -/

/-- Words that name no files, and fix this width in the setting. -/
def FixesWidth (asked : List Text) (setting : Setting) (verbose : Bool) (width : Int)
    (events : List Event) : Prop :=
  ∃ option, Options.read asked = .ok ⟨[], option, verbose, false⟩ ∧
    Width.choose option setting.environment setting.terminal = ⟨.columns width, events⟩

/-- Whatever the setting, a number that is asked for fixes the width. -/
theorem fixesWidth_option {given : Text} (h : Width.read given = .ok width) (setting : Setting) :
    FixesWidth ["-w".toList, given] setting false width [.widthFromOption (.columns width)] :=
  ⟨some (.columns width), Options.read_width h, rfl⟩

/-- Words that ask for work on these paths, within this width in the setting. -/
def Asks (words : List Text) (setting : Setting) (verbose : Bool) (width : Int)
    (events : List Event) (paths : List Text) : Prop :=
  ∃ files option, Options.read words = .ok ⟨files, option, verbose, false⟩ ∧
    Width.choose option setting.environment setting.terminal = ⟨.columns width, events⟩ ∧
    (if files.isEmpty then [standardInput] else files) = paths

/-- There is always something to work on. -/
theorem Asks.ne_nil {words paths : List Text} {setting : Setting} {verbose : Bool}
    {events : List Event} (h : Asks words setting verbose width events paths) : paths ≠ [] := by
  obtain ⟨files, -, -, -, rfl⟩ := h
  cases files with
  | nil => exact List.cons_ne_nil _ _
  | cons file rest => exact List.cons_ne_nil _ _

/-- What some paths supply in a setting. -/
def Setting.supplies (setting : Setting) (paths : List Text) : List Supply :=
  Cli.supplies setting.read setting.input.lines paths

/-- What the work on some paths leads to. -/
def Setting.outcome (setting : Setting) (width : Int) (paths : List Text) : Outcome :=
  processFiles setting.limit (.columns width) setting.read paths setting.input
    (.empty setting.trouble)

variable {asked words paths : List Text} {setting : Setting} {verbose : Bool}
  {events : List Event}

/-- Paths behind the words are the files. -/
theorem FixesWidth.asks (hasked : FixesWidth asked setting verbose width events)
    (hpaths : ∀ path ∈ paths, IsOperand path) (hne : paths ≠ []) :
    Asks (asked ++ paths) setting verbose width events paths := by
  obtain ⟨option, hread, hwidth⟩ := hasked
  refine ⟨paths, option, Options.read_append hread hpaths, hwidth, ?_⟩
  rw [if_neg (by simpa using hne)]

/-- Without files the work is on the standard input. -/
theorem FixesWidth.asks_input (hasked : FixesWidth asked setting verbose width events) :
    Asks asked setting verbose width events [standardInput] := by
  obtain ⟨option, hread, hwidth⟩ := hasked
  exact ⟨[], option, hread, hwidth, rfl⟩

/-- A run works on the paths that its words ask for. -/
theorem run_asks {outcome : Outcome} (h : Asks words setting verbose width events paths)
    (houtcome : setting.outcome width paths = outcome) (hflush : outcome.sink.flushFault = none) :
    run words setting =
      ⟨(conclude setting.traceback outcome.verdict none).1, outcome.sink.text,
        diagnosticsOf setting.console verbose (events.map Note.report ++ outcome.notes ++
          (conclude setting.traceback outcome.verdict none).2), outcome.input⟩ := by
  obtain ⟨files, option, hread, hwidth, hfiles⟩ := h
  unfold Setting.outcome at houtcome
  rw [run, hread]
  dsimp only
  rw [runWith, if_neg Bool.false_ne_true]
  simp only [hwidth, hfiles, houtcome, hflush]

/-- A report on some supplies, with these reports before and these notes behind them. -/
structure Report.Covers (report : Report) (setting : Setting) (verbose : Bool) (width : Int)
    (events : List Event) (supplies : List Supply) (last : List Note) : Prop where
  output_eq : report.output = supplies.flatMap (Supply.output setting.limit width)
  diagnostics_eq : report.diagnostics = diagnosticsOf setting.console verbose
    (events.map Note.report ++ supplies.flatMap (Supply.notes setting.limit width) ++ last)

theorem Sink.holds_empty {trouble : Trouble} (h : trouble = .none) :
    (Sink.empty trouble).Holds [] :=
  ⟨h, rfl⟩

section Paths

variable (htrouble : setting.trouble = .none)
  (hopen : standardInput ∈ paths → setting.input.isOpen = true)

include htrouble hopen

/-- The work on paths without a null is on all of them. -/
theorem outcome_paths (hnul : ∀ path ∈ paths, '\x00' ∉ path) (width : Int) :
    ∃ next spent,
      next.Holds ((setting.supplies paths).flatMap (Supply.output setting.limit width)) ∧
      setting.outcome width paths =
        ⟨(setting.supplies paths).flatMap (Supply.notes setting.limit width), spent, next,
          if (setting.supplies paths).any Supply.fails then .failed else .done⟩ := by
  obtain ⟨next, spent, hholds, hfiles⟩ := @processFiles_append _ _ setting.read
    setting.input paths (Sink.holds_empty htrouble) setting.limit width hnul hopen []
  rw [List.append_nil, processFiles] at hfiles
  dsimp only at hfiles
  refine ⟨next, spent, hholds, ?_⟩
  rw [Setting.outcome, hfiles, foldr_verdict, List.append_nil]
  rfl

/-- A run without a null in its paths works on all of them. -/
theorem run_paths (h : Asks words setting verbose width events paths)
    (hnul : ∀ path ∈ paths, '\x00' ∉ path) :
    (run words setting).Covers setting verbose width events (setting.supplies paths) [] ∧
      (run words setting).status =
        (if (setting.supplies paths).any Supply.fails then 1 else 0) := by
  obtain ⟨next, spent, hholds, houtcome⟩ := outcome_paths htrouble hopen hnul width
  rw [run_asks h houtcome hholds.flushFault]
  cases (setting.supplies paths).any Supply.fails with
  | false => exact ⟨⟨hholds.text_eq, rfl⟩, rfl⟩
  | true => exact ⟨⟨hholds.text_eq, rfl⟩, rfl⟩

end Paths

end Bracketed.Cli
