import Bracketed.Proofs.Acceptance

/-!
# Diagnosis

A text that is read leaves no report.  One that is abandoned is abandoned at the first comma
that has nothing before it, or else at its end; and only in the second case, if a bracket is
still open then, the innermost such bracket is reported with the text that leads to it.  That
text begins behind the character before it that is not plain.
-/

namespace Bracketed

/-! ## Open brackets -/

/-- The text from one place up to another. -/
def Text.between (text : Text) (first last : Nat) : Text :=
  (text.drop first).take (last - first)

/-- An open bracket, where the text that leads to it begins, and its own place. -/
structure OpenBracket where
  bracket : Bracket
  begins : Nat
  place : Nat
deriving DecidableEq, Repr

/-- The text that leads to an open bracket. -/
def OpenBracket.lead (text : Text) (opening : OpenBracket) : Text :=
  text.between opening.begins opening.place

/-- The brackets that are open behind some characters, innermost first, and the place behind
the last character that is not plain. -/
structure Scan where
  opened : List OpenBracket
  behind : Nat
deriving DecidableEq, Repr

namespace Scan

def initial : Scan :=
  ⟨[], 0⟩

def brackets (scan : Scan) : List Bracket :=
  scan.opened.map OpenBracket.bracket

/-- The scan behind one more unquoted character, which has a place. -/
def step (scan : Scan) (visit : Nat × Char) : Scan :=
  match Role.of scan.brackets visit.2 with
  | .opening bracket => ⟨⟨bracket, scan.behind, visit.1⟩ :: scan.opened, visit.1 + 1⟩
  | .closing => ⟨scan.opened.tail, visit.1 + 1⟩
  | .comma => ⟨scan.opened, visit.1 + 1⟩
  | .plain => scan

theorem brackets_step (scan : Scan) (visit : Nat × Char) :
    (scan.step visit).brackets = Bracket.scan scan.brackets visit.2 := by
  unfold step Bracket.scan
  cases Role.of scan.brackets visit.2 with
  | opening bracket => rfl
  | closing => exact List.map_tail
  | comma => rfl
  | plain => rfl

theorem brackets_foldl_places (scan : Scan) (start : Nat) (trail : Trail) :
    ((trail.places start).foldl step scan).brackets =
      trail.chars.foldl Bracket.scan scan.brackets := by
  induction trail generalizing scan start with
  | stop gap => rfl
  | step gap c next ih => rw [Trail.places, Trail.chars, List.foldl_cons, List.foldl_cons, ih,
      brackets_step]

end Scan

namespace Text

/-- The brackets of a text that are still open at its end, innermost first. -/
def openBrackets (text : Text) : List OpenBracket :=
  (text.places.foldl Scan.step Scan.initial).opened

theorem map_bracket_openBrackets (text : Text) :
    text.openBrackets.map OpenBracket.bracket = text.leftOpen :=
  Scan.brackets_foldl_places Scan.initial 0 (Trail.ofText text)

/-- The reports on a text that is abandoned. -/
inductive Diagnosed (text : Text) : List Event → Prop
  /-- The first comma that has nothing before it. -/
  | comma {place : Nat} (offends : text.Offends place)
      (first : ∀ other, text.Offends other → place ≤ other) :
      Diagnosed text [.abandoned place text.length]
  /-- The innermost bracket that is open at the end. -/
  | unclosed {innermost : OpenBracket} {outer : List OpenBracket}
      (not_offends : ∀ place, ¬ text.Offends place)
      (opened : text.openBrackets = innermost :: outer) :
      Diagnosed text
        [.unclosed innermost.bracket (innermost.lead text), .abandoned text.length text.length]
  /-- The empty text, which has neither. -/
  | empty (nil : text = []) : Diagnosed text [.abandoned text.length text.length]

variable {text gap rest : Text} {first last : Nat}

theorem between_self (text : Text) (first : Nat) : text.between first first = [] := by
  rw [between, Nat.sub_self, List.take_zero]

theorem between_append (h : first ≤ last) (hgap : text.drop last = gap ++ rest) :
    text.between first (last + gap.length) = text.between first last ++ gap := by
  have hlast : last + gap.length - first = last - first + gap.length := by omega
  rw [between, between, hlast, List.take_add, List.drop_drop, Nat.add_sub_cancel' h, hgap,
    List.take_left]

end Text

/-! ## Passes and scans -/

namespace Scan

/-- A scan keeps track of a pass: the same brackets are open, the same text leads to them,
and the text that was begun last is the text behind the last character that is not plain. -/
structure Tracks (text : Text) (start : Nat) (scan : Scan) (pass : Pass) : Prop where
  opened : pass.opened.map (fun group => (group.bracket, group.lead)) =
    scan.opened.map fun opening => (opening.bracket, opening.lead text)
  behind_le : scan.behind ≤ start
  pending : ∀ gap, pass.pending gap = text.between scan.behind start ++ gap

variable {text gap rest : Text} {start : Nat} {scan : Scan} {pass after : Pass} {c : Char}

theorem tracks_initial (text : Text) : initial.Tracks text 0 Pass.initial := by
  constructor
  · rfl
  · exact Nat.le_refl 0
  · intro gap
    rw [initial, Text.between_self]
    rfl

theorem Tracks.brackets_eq (tracks : scan.Tracks text start pass) :
    scan.brackets = pass.brackets := by
  have hopened := congrArg (List.map Prod.fst) tracks.opened
  rw [List.map_map, List.map_map] at hopened
  exact hopened.symm

theorem Tracks.step (tracks : scan.Tracks text start pass)
    (htext : text.drop start = gap ++ c :: rest) (h : pass.step gap c = some after) :
    (scan.step (start + gap.length, c)).Tracks text (start + gap.length + 1) after := by
  have hpending := tracks.pending gap
  have hgap := Text.between_append tracks.behind_le htext
  rw [← hgap] at hpending
  unfold Scan.step
  rw [tracks.brackets_eq]
  rcases Pass.step_cases h with ⟨bracket, hrole, rfl⟩ |
    ⟨group, outer, hrole, hopened, -, rfl⟩ | ⟨hrole, hcomma⟩ | ⟨hrole, rfl⟩
  · rw [hrole]
    refine ⟨?_, Nat.le_refl _, ?_⟩
    · simp [Pass.takeOpening, tracks.opened, hpending, OpenBracket.lead]
    · intro more
      rw [Text.between_self]
      rfl
  · rw [hrole]
    refine ⟨?_, Nat.le_refl _, ?_⟩
    · have htail := congrArg List.tail tracks.opened
      rw [hopened, List.map_cons, List.tail_cons, ← List.map_tail] at htail
      exact htail
    · intro more
      rw [Text.between_self]
      rfl
  · rw [hrole]
    have hbegun : after.opened = pass.opened ∧ after.begun = .text [] := by
      rcases Pass.takeComma_cases hcomma with
        ⟨lead, -, -, rfl⟩ | ⟨lead, bracket, children, -, rfl⟩
      · exact ⟨rfl, rfl⟩
      · exact ⟨rfl, rfl⟩
    refine ⟨?_, Nat.le_refl _, ?_⟩
    · rw [hbegun.1]
      exact tracks.opened
    · intro more
      rw [Text.between_self, Pass.pending, hbegun.2]
  · rw [hrole]
    have hnext : text.drop (start + gap.length) = [c] ++ rest := by
      rw [← List.drop_drop, htext, List.drop_left]
      rfl
    have hbehind : scan.behind ≤ start + gap.length :=
      Nat.le_trans tracks.behind_le (Nat.le_add_right _ _)
    refine ⟨tracks.opened, Nat.le_succ_of_le hbehind, ?_⟩
    intro more
    have hlonger := Text.between_append hbehind hnext
    rw [List.length_singleton] at hlonger
    rw [hlonger, ← hpending]
    rfl

end Scan

namespace Pass

open Trail (OffendsAt)

variable {text : Text} {trail : Trail} {start : Nat} {scan : Scan} {pass : Pass}

/-- A pass is given up at the first comma that has nothing before it, and otherwise comes to
the end together with the scan. -/
theorem run_cases (tracks : scan.Tracks text start pass) (htext : trail.text = text.drop start) :
    (∃ place, trail.OffendsAt start (pass.begun = .text []) place ∧
      (∀ other, trail.OffendsAt start (pass.begun = .text []) other → place ≤ other) ∧
      pass.run trail = .error ⟨.blank, text.length - place⟩) ∨
    (∀ place, ¬ trail.OffendsAt start (pass.begun = .text []) place) ∧
      ∃ last final gap, ((trail.places start).foldl Scan.step scan).Tracks text last final ∧
        pass.run trail = final.finish gap := by
  induction trail generalizing start scan pass with
  | stop gap =>
      refine .inr ⟨?_, start, pass, gap, tracks, rfl⟩
      rintro place ⟨hmem, -⟩
      cases hmem
  | step gap c next ih =>
      rw [Trail.text] at htext
      cases hstep : pass.step gap c with
      | none =>
          obtain ⟨rfl, hbegun, rfl⟩ := step_eq_none_iff.1 hstep
          have hlength := congrArg List.length htext
          rw [List.nil_append, List.length_cons, List.length_drop] at hlength
          refine .inl ⟨start, ?_, ?_, ?_⟩
          · exact Trail.offendsAt_step_iff.2 (.inl ⟨hbegun, rfl, rfl, rfl⟩)
          · rintro other ⟨hmem, -⟩
            exact Trail.le_of_mem_places hmem
          · rw [run, hstep, ← hlength]
      | some after =>
          have hkept : ¬ (pass.begun = .text [] ∧ gap = [] ∧ c = separator) := by
            rintro ⟨hbegun, hgap, hcomma⟩
            cases (step_eq_none_iff.2 ⟨hcomma, hbegun, hgap⟩).symm.trans hstep
          have hoffends : ∀ place,
              (Trail.step gap c next).OffendsAt start (pass.begun = .text []) place ↔
                next.OffendsAt (start + gap.length + 1) (after.begun = .text []) place := by
            intro place
            rw [Trail.offendsAt_step_iff, begun_step_iff hstep]
            apply or_iff_right
            rintro ⟨hbegun, hgap, hcomma, -⟩
            exact hkept ⟨hbegun, hgap, hcomma⟩
          have hnext : next.text = text.drop (start + gap.length + 1) := by
            rw [Nat.add_assoc, ← List.drop_drop, ← htext, ← List.drop_drop, List.drop_left]
            rfl
          have hrest := ih (tracks.step htext.symm hstep) hnext
          simp only [← hoffends] at hrest
          rw [run, hstep]
          exact hrest

end Pass

/-! ## Whole texts -/

/-- A head that was moved from the beginning of a text stands as far from the end as it has
text ahead. -/
theorem Head.offset_of_precedes {text : Text} {head : Head}
    (h : (Head.ofText text).Precedes head) : head.offset = text.length - head.unread := by
  have hending : head.ending = text.length :=
    h.ending_eq.trans (Head.ending_eq_length (Nat.zero_le _))
  have hunread := head.offset_add_unread
  omega

/-- What is reported when a pass is given up. -/
def Halt.events (text : Text) (halt : Halt) : List Event :=
  halt.refusal.events ++ [.abandoned (text.length - halt.unread) text.length]

/-- The reports on a text are told by the pass over it. -/
theorem Forest.exists_read_events {limit : Nat} {text : Text} (h : text.nesting < limit) :
    ∃ reading, Forest.read limit text = .ok reading ∧
      ((∃ forest, Pass.initial.run (Trail.ofText text) = .ok forest ∧
          reading.forest = forest ∧ reading.events = []) ∨
        ∃ halt, Pass.initial.run (Trail.ofText text) = .error halt ∧
          reading.forest = [] ∧ reading.events = halt.events text) := by
  rcases read_cases limit text with ⟨-, hdeep⟩ | ⟨reading, hread, hprecedes, htells⟩
  · omega
  · refine ⟨reading, hread, ?_⟩
    cases htells with
    | read run_eq => exact .inl ⟨_, run_eq, rfl, rfl⟩
    | @refused refusal next run_eq =>
        have hsource : next.source.text = text := congrArg Source.text hprecedes.source_eq
        refine .inr ⟨_, run_eq, rfl, ?_⟩
        rw [Halt.events, hsource, Head.offset_of_precedes hprecedes]

/-- The reports on a pass that is given up. -/
theorem Pass.diagnosed_of_run {text : Text} {halt : Halt}
    (h : Pass.initial.run (Trail.ofText text) = .error halt) :
    text.Diagnosed (halt.events text) := by
  have htext : (Trail.ofText text).text = text.drop 0 := Trail.text_ofText text
  have hoffends : ∀ place,
      (Trail.ofText text).OffendsAt 0 (Pass.initial.begun = .text []) place ↔
        text.Offends place := by
    intro place
    rw [← Text.offendsAt_iff]
    simp [Pass.initial]
  have hcases := Pass.run_cases (Scan.tracks_initial text) htext
  simp only [hoffends] at hcases
  rcases hcases with ⟨place, hplace, hfirst, hrun⟩ | ⟨hnone, last, final, gap, tracks, hrun⟩
  · cases h.symm.trans hrun
    have hlt : place < text.length := by
      have hchar := Trail.getElem?_of_mem_places hplace.1
      rw [htext] at hchar
      exact (List.getElem?_eq_some_iff.1 hchar).1
    have hback : text.length - (text.length - place) = place := by omega
    rw [Halt.events, hback]
    exact .comma hplace hfirst
  · have hopened : final.opened.map (fun group => (group.bracket, group.lead)) =
        text.openBrackets.map fun opening => (opening.bracket, opening.lead text) := tracks.opened
    cases hfinal : final.opened with
    | nil =>
        rw [hfinal] at hopened
        have hleft : text.leftOpen = [] := by
          rw [← text.map_bracket_openBrackets, List.map_eq_nil_iff.1 hopened.symm]
          rfl
        have hnil : text = [] := by
          refine Decidable.byContradiction fun hne => ?_
          obtain ⟨forest, hok⟩ := text.accepted_iff.1 ⟨hne, hnone, hleft⟩
          cases h.symm.trans hok
        subst hnil
        cases h
        exact .empty rfl
    | cons group outer =>
        rw [hrun, Pass.finish, hfinal] at h
        rw [hfinal] at hopened
        cases h
        obtain ⟨innermost, others, hopen, hpair, -⟩ := List.map_eq_cons_iff.1 hopened.symm
        obtain ⟨hbracket, hlead⟩ := Prod.mk.inj hpair
        rw [← hbracket, ← hlead]
        exact .unclosed hnone hopen

/-- Below the nesting limit a text is read.  Nothing is reported if it has a forest, and if
it has none, then the first comma that has nothing before it is reported, or else the end and
the innermost bracket that is open there. -/
theorem Forest.events_of_read {limit : Nat} {text : Text} (h : text.nesting < limit) :
    ∃ reading, Forest.read limit text = .ok reading ∧
      (reading.forest ≠ [] → reading.events = []) ∧
      (reading.forest = [] → text.Diagnosed reading.events) := by
  obtain ⟨reading, hread, ⟨forest, hrun, hforest, hevents⟩ | ⟨halt, hrun, hforest, hevents⟩⟩ :=
    exists_read_events h
  · refine ⟨reading, hread, fun _ => hevents, fun hnil => ?_⟩
    exact absurd (hforest.symm.trans hnil) (Pass.run_ne_nil hrun)
  · refine ⟨reading, hread, fun hne => absurd hforest hne, fun _ => ?_⟩
    rw [hevents]
    exact Pass.diagnosed_of_run hrun

/-- A quoted comma and a bracket that closes nothing are text, also the text that leads to a
bracket. -/
theorem Forest.events_of_read_unclosed :
    let text : Text := ['g', '\x7b', '\x22', ',', '\x22', 'h', ']', 'i', '[', 'j']
    text.openBrackets = [⟨.square, 2, 8⟩, ⟨.curly, 0, 1⟩] ∧
      ∃ reading, Forest.read 3 text = .ok reading ∧ text.Diagnosed reading.events ∧
        reading.events.map Event.message =
          ["Unclosed '[' after prefix '\",\"h]i'", "Parse abandoned at offset 10 of 10"] := by
  intro text
  have hnesting : text.nesting < 3 := by decide +kernel
  have hopen : text.openBrackets = [⟨.square, 2, 8⟩, ⟨.curly, 0, 1⟩] := by decide +kernel
  have hforest : (Forest.read 3 text).map Reading.forest = .ok [] := rfl
  have hevents : (Forest.read 3 text).map Reading.events =
      .ok [.unclosed .square ['\x22', ',', '\x22', 'h', ']', 'i'], .abandoned 10 10] := rfl
  obtain ⟨reading, hread, -, hdiagnosed⟩ := events_of_read hnesting
  rw [hread] at hforest hevents
  refine ⟨hopen, reading, hread, hdiagnosed (Except.ok.inj hforest), ?_⟩
  rw [Except.ok.inj hevents]
  decide +kernel

end Bracketed
