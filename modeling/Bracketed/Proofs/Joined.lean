import Mathlib.Algebra.Ring.Nat
import Mathlib.Data.List.Forall2
import Bracketed.Proofs.Cuts
import Bracketed.Proofs.Supplies

/-!
# Joined files

Files whose contents are cut behind line feeds are printed like one file that holds all of
them, and that file like the same bytes on the standard input.  What a job prints, and how
many lines it counts, is told by the lines that its paths give, and the lines of the whole are
those of the parts.
-/

namespace Bracketed.Cli

/-! ## Counts -/

def Note.count? : Note → Option Nat
  | report (.fileDone _ count _) => some count
  | _ => none

/-- The numbers of lines that are reported of the files, one after the other. -/
def Outcome.counts (outcome : Outcome) : List Nat :=
  outcome.notes.filterMap Note.count?

theorem Note.count?_of_level {event : Event} (h : event.level ≠ .info) :
    (report event).count? = none := by
  cases event with
  | fileDone path count width => exact absurd rfl h
  | _ => rfl

/-- No report on a line is taken for one on a file. -/
theorem filterMap_reported (limit : Nat) (lines : List Text) :
    ((reported limit lines).map Note.report).filterMap Note.count? = [] := by
  rw [List.filterMap_eq_nil_iff]
  intro note hnote
  obtain ⟨event, hevent, rfl⟩ := List.mem_map.1 hnote
  obtain ⟨line, -, hline⟩ := List.mem_flatMap.1 hevent
  apply Note.count?_of_level
  cases hread : Forest.read limit line.chomp with
  | error fault =>
      rw [examine, hread] at hline
      rw [List.mem_singleton.1 hline, Event.level]
      decide
  | ok reading =>
      rw [level_of_mem_events_examine hread hline]
      decide

/-! ## Parts -/

/-- Supplies that are these lines, part by part. -/
def Supply.Give (supplies : List Supply) (parts : List (List Text)) : Prop :=
  List.Forall₂ (fun supply lines => supply.lines = .ok lines) supplies parts

namespace Supply.Give

variable {supplies : List Supply} {parts : List (List Text)}

theorem output_eq (h : Give supplies parts) (limit : Nat) (width : Int) :
    supplies.flatMap (Supply.output limit width) = printed limit width parts.flatten := by
  induction h with
  | nil => rfl
  | cons hfirst hrest ih =>
      rw [List.flatMap_cons, ih, Supply.output, hfirst, printed, printed, List.flatten_cons,
        List.flatMap_append]
      rfl

theorem counts_eq (h : Give supplies parts) (limit : Nat) (width : Int) :
    (supplies.flatMap (Supply.notes limit width)).filterMap Note.count? =
      parts.map List.length := by
  induction h with
  | nil => rfl
  | cons hfirst hrest ih =>
      rw [List.flatMap_cons, List.filterMap_append, ih, Supply.notes, hfirst]
      dsimp only
      rw [List.filterMap_append, filterMap_reported]
      rfl

end Supply.Give

/-! ## Jobs -/

/-- Words that ask for work on these paths within this width, in a setting with this limit that
does not trouble the output. -/
structure Job (words : List Text) (setting : Setting) (limit : Nat) (width : Int)
    (paths : List Text) : Prop where
  asks : ∃ verbose events, Asks words setting verbose width events paths
  trouble : setting.trouble = .none
  limit_eq : setting.limit = limit

/-- A path under which these bytes are stored. -/
structure Setting.Stores (setting : Setting) (path : Text) (bytes : List UInt8) : Prop where
  ne_input : path ≠ standardInput
  clear : '\x00' ∉ path
  read_eq : setting.read path = .ok bytes

section Jobs

variable {words paths : List Text} {path : Text} {setting : Setting}
  {limit : Nat} {width : Int}
  {contents : List (List UInt8)} {content : List UInt8} {parts : List (List Text)}

/-- What a job prints and counts, given the lines of its paths. -/
theorem Job.works (h : Job words setting limit width paths)
    (hopen : standardInput ∈ paths → setting.input.isOpen = true)
    (hclear : ∀ path ∈ paths, '\x00' ∉ path)
    (hgive : Supply.Give (setting.supplies paths) parts) :
    (run words setting).output = printed limit width parts.flatten ∧
      (setting.outcome width paths).counts = parts.map List.length := by
  obtain ⟨verbose, events, hasks⟩ := h.asks
  obtain ⟨hcovers, -⟩ := run_paths h.trouble hopen hasks hclear
  obtain ⟨next, spent, -, houtcome⟩ := outcome_paths h.trouble hopen hclear width
  constructor
  · rw [hcovers.output_eq, hgive.output_eq, h.limit_eq]
  · rw [houtcome, Outcome.counts, hgive.counts_eq]

theorem supplies_give (hstored : List.Forall₂ setting.Stores paths contents) :
    Supply.Give (setting.supplies paths) (contents.map linesOfBytes) := by
  unfold Setting.supplies
  induction hstored with
  | nil => exact .nil
  | cons hfirst hrest ih =>
      rw [supplies, if_neg hfirst.ne_input]
      refine .cons ?_ ih
      rw [supply_of_ok hfirst.ne_input hfirst.read_eq]

theorem of_mem_stores (hstored : List.Forall₂ setting.Stores paths contents) (h : path ∈ paths) :
    path ≠ standardInput ∧ '\x00' ∉ path := by
  induction hstored with
  | nil => cases h
  | cons hfirst hrest ih =>
      rcases List.mem_cons.1 h with rfl | h
      · exact ⟨hfirst.ne_input, hfirst.clear⟩
      · exact ih h

theorem Job.works_stored (h : Job words setting limit width paths)
    (hstored : List.Forall₂ setting.Stores paths contents) :
    (run words setting).output = printed limit width (contents.flatMap linesOfBytes) ∧
      (setting.outcome width paths).counts =
        contents.map fun content => (linesOfBytes content).length := by
  obtain ⟨houtput, hcounts⟩ := h.works
    (fun hmem => absurd rfl (of_mem_stores hstored hmem).1)
    (fun path hmem => (of_mem_stores hstored hmem).2) (supplies_give hstored)
  constructor
  · rw [houtput, List.flatMap_def]
  · rw [hcounts, List.map_map]
    rfl

theorem Job.works_input (h : Job words setting limit width [standardInput])
    (hinput : setting.input = .ofBytes content) :
    (run words setting).output = printed limit width (linesOfBytes content) ∧
      (setting.outcome width [standardInput]).counts = [(linesOfBytes content).length] := by
  have hlines : setting.input.lines = linesOfBytes content := by
    rw [hinput]
    rfl
  have hgive : Supply.Give (setting.supplies [standardInput]) [linesOfBytes content] := by
    rw [← hlines]
    exact .cons rfl .nil
  have hopen : setting.input.isOpen = true := by
    rw [hinput]
    rfl
  obtain ⟨houtput, hcounts⟩ := h.works (fun _ => hopen) (by decide) hgive
  constructor
  · rw [houtput, List.flatten_singleton]
  · exact hcounts

/-- Files with contents that are cut behind line feeds, all but the last, are printed like
one file with all of them and like the same bytes on the standard input, and the counts of
their lines add up to the count of the whole. -/
theorem run_concatenates {words' words'' : List Text} {setting' setting'' : Setting}
    (hseveral : Job words setting limit width paths)
    (hstored : List.Forall₂ setting.Stores paths contents)
    (hsingle : Job words' setting' limit width [path])
    (hstored' : setting'.Stores path contents.flatten)
    (hpiped : Job words'' setting'' limit width [standardInput])
    (hinput : setting''.input = .ofBytes contents.flatten)
    (hcut : ∀ content ∈ contents.dropLast, Cut content) :
    ((run words setting).output = printed limit width (linesOfBytes contents.flatten) ∧
      (run words' setting').output = (run words setting).output ∧
      (run words'' setting'').output = (run words setting).output) ∧
    (setting.outcome width paths).counts =
      (contents.map fun content => (linesOfBytes content).length) ∧
    (setting'.outcome width [path]).counts = [(setting.outcome width paths).counts.sum] ∧
    (setting''.outcome width [standardInput]).counts =
      [(setting.outcome width paths).counts.sum] := by
  obtain ⟨houtput, hcounts⟩ := hseveral.works_stored hstored
  obtain ⟨houtput', hcounts'⟩ := hsingle.works_stored (.cons hstored' .nil)
  obtain ⟨houtput'', hcounts''⟩ := hpiped.works_input hinput
  have hlines := linesOfBytes_flatten hcut
  have hwhole :
      (run words setting).output = printed limit width (linesOfBytes contents.flatten) := by
    rw [houtput, hlines]
  have hsum : (linesOfBytes contents.flatten).length =
      (setting.outcome width paths).counts.sum := by
    rw [hlines, hcounts, List.length_flatMap]
  refine ⟨⟨hwhole, ?_, ?_⟩, hcounts, ?_, ?_⟩
  · rw [houtput', hwhole, List.flatMap_singleton]
  · rw [houtput'', hwhole]
  · rw [hcounts', List.map_singleton, hsum]
  · rw [hcounts'', hsum]

/-- A character cut short before a line end, an empty file, and an open bracket before a byte
that begins no character. -/
theorem run_concatenates_illFormed :
    let contents : List (List UInt8) := [[0xE2, 0x82, 13, 10], [], [40, 13, 97, 0xFF]]
    let paths := ["a".toList, "b".toList, "c".toList]
    let setting : Setting :=
      ⟨(Folder.ofEntries (("d".toList, contents.flatten) :: paths.zip contents) []).read,
        .ofBytes contents.flatten, none, none, .none, 2, .unstyled 80,
        fun _ => "Traceback (most recent call last):\n".toList⟩
    let asked := ["-w".toList, "7".toList]
    ((run (asked ++ paths) setting).output = printed 2 7 (linesOfBytes contents.flatten) ∧
      (run (asked ++ ["d".toList]) setting).output = (run (asked ++ paths) setting).output ∧
      (run asked setting).output = (run (asked ++ paths) setting).output) ∧
    (setting.outcome 7 paths).counts = [1, 0, 2] ∧
    (setting.outcome 7 ["d".toList]).counts = [(setting.outcome 7 paths).counts.sum] ∧
    (setting.outcome 7 [standardInput]).counts = [(setting.outcome 7 paths).counts.sum] := by
  intro contents paths setting asked
  have hasked := fixesWidth_option (show Width.read "7".toList = .ok 7 by decide +kernel) setting
  have hseveral : Job (asked ++ paths) setting 2 7 paths :=
    ⟨⟨_, _, hasked.asks (by decide) (List.cons_ne_nil _ _)⟩, rfl, rfl⟩
  have hsingle : Job (asked ++ ["d".toList]) setting 2 7 ["d".toList] :=
    ⟨⟨_, _, hasked.asks (by decide) (List.cons_ne_nil _ _)⟩, rfl, rfl⟩
  have hpiped : Job asked setting 2 7 [standardInput] :=
    ⟨⟨_, _, hasked.asks_input⟩, rfl, rfl⟩
  have hstored : List.Forall₂ setting.Stores paths contents :=
    .cons ⟨by decide, by decide, rfl⟩
      (.cons ⟨by decide, by decide, rfl⟩ (.cons ⟨by decide, by decide, rfl⟩ .nil))
  have hstored' : setting.Stores "d".toList contents.flatten := ⟨by decide, by decide, rfl⟩
  obtain ⟨houtputs, hcounts, hsums⟩ :=
    run_concatenates hseveral hstored hsingle hstored' hpiped rfl (by decide)
  exact ⟨houtputs, hcounts.trans (by decide +kernel), hsums⟩

end Jobs

end Bracketed.Cli
