import Bracketed.Proofs.Agreement
import Bracketed.Proofs.Places

/-!
# Accepted texts

A text has a forest just when it is not empty, every unquoted comma has something
before it, and one scan with a stack of open brackets leaves none open.  A comma has
nothing before it at the beginning of the text, and directly behind another comma or
an opening bracket; quoted text before it is enough.
-/

namespace Bracketed

/-! ## Commas -/

namespace Text

/-- An unquoted comma that has nothing before it stands at this place. -/
def Offends (text : Text) (place : Nat) : Prop :=
  (place, separator) ∈ text.places ∧
    (place = 0 ∨ ∃ before c, place = before + 1 ∧ (before, c) ∈ text.places ∧
      (c = separator ∨ c ∈ Bracket.openings))

/-- The brackets that a scan of the unquoted characters leaves open. -/
def leftOpen (text : Text) : List Bracket :=
  text.unquoted.foldl Bracket.scan []

structure Accepted (text : Text) : Prop where
  ne_nil : text ≠ []
  not_offends : ∀ place, ¬ text.Offends place
  leftOpen_eq : text.leftOpen = []

end Text

namespace Trail

/-- A comma has nothing before it.  `bare` says whether that holds of a comma at the
very beginning. -/
def Offending (bare : Prop) : Trail → Prop
  | stop _ => False
  | step gap char next =>
      (bare ∧ gap = [] ∧ char = separator) ∨
        next.Offending (char = separator ∨ char ∈ Bracket.openings)

/-- The comma at this place has nothing before it.  `bare` says whether that holds of a comma
at `start`, where the trail begins. -/
def OffendsAt (start : Nat) (bare : Prop) (trail : Trail) (place : Nat) : Prop :=
  (place, separator) ∈ trail.places start ∧
    ((place = start ∧ bare) ∨ ∃ before c, place = before + 1 ∧
      (before, c) ∈ trail.places start ∧ (c = separator ∨ c ∈ Bracket.openings))

theorem offendsAt_step_iff {gap : Text} {char : Char} {next : Trail} {start place : Nat}
    {bare : Prop} :
    (step gap char next).OffendsAt start bare place ↔
      (bare ∧ gap = [] ∧ char = separator ∧ place = start) ∨
        next.OffendsAt (start + gap.length + 1)
          (char = separator ∨ char ∈ Bracket.openings) place := by
  simp only [OffendsAt, places, List.mem_cons, Prod.mk.injEq]
  constructor
  · rintro ⟨⟨rfl, rfl⟩ | hplace, hbefore⟩
    · rcases hbefore with ⟨hstart, hbare⟩ | ⟨before, c, hplace, hbefore, hasks⟩
      · have hgap : gap = [] := List.length_eq_zero_iff.1 (by omega)
        exact .inl ⟨hbare, hgap, rfl, hstart⟩
      · rcases hbefore with ⟨rfl, rfl⟩ | hbefore
        · omega
        · have := le_of_mem_places hbefore
          omega
    · have hle := le_of_mem_places hplace
      rcases hbefore with ⟨rfl, hbare⟩ | ⟨before, c, rfl, ⟨rfl, rfl⟩ | hbefore, hasks⟩
      · omega
      · exact .inr ⟨hplace, .inl ⟨rfl, hasks⟩⟩
      · exact .inr ⟨hplace, .inr ⟨before, c, rfl, hbefore, hasks⟩⟩
  · rintro (⟨hbare, rfl, rfl, rfl⟩ | ⟨hplace, ⟨rfl, hasks⟩ | ⟨before, c, rfl, hbefore, hasks⟩⟩)
    · exact ⟨.inl ⟨rfl, rfl⟩, .inl ⟨rfl, hbare⟩⟩
    · exact ⟨.inr hplace, .inr ⟨_, char, rfl, .inl ⟨rfl, rfl⟩, hasks⟩⟩
    · exact ⟨.inr hplace, .inr ⟨before, c, rfl, .inr hbefore, hasks⟩⟩

theorem offending_iff (trail : Trail) (start : Nat) (bare : Prop) :
    trail.Offending bare ↔ ∃ place, trail.OffendsAt start bare place := by
  induction trail generalizing start bare with
  | stop gap => simp [Offending, OffendsAt, places]
  | step gap char next ih =>
      simp [Offending, ih (start + gap.length + 1), offendsAt_step_iff, exists_or]

end Trail

theorem Text.offendsAt_iff {text : Text} {place : Nat} :
    (Trail.ofText text).OffendsAt 0 True place ↔ text.Offends place := by
  simp [Offends, Trail.OffendsAt, places]

theorem Text.exists_offends_iff (text : Text) :
    (∃ place, text.Offends place) ↔ (Trail.ofText text).Offending True := by
  simp only [Trail.offending_iff _ 0, offendsAt_iff]

/-! ## Passes that come to a forest -/

namespace Pass

variable {pass after : Pass} {gap : Text} {c : Char}

/-- Nothing is begun behind a comma and an opening bracket, and only there. -/
theorem begun_step_iff (h : pass.step gap c = some after) :
    after.begun = .text [] ↔ c = separator ∨ c ∈ Bracket.openings := by
  rcases step_cases h with ⟨bracket, hrole, rfl⟩ | ⟨group, outer, hrole, -, hclosing, rfl⟩ |
    ⟨hrole, hcomma⟩ | ⟨hrole, rfl⟩
  · have hmem : c ∈ Bracket.openings :=
      Bracket.mem_openings_iff.2 ⟨bracket, (Role.eq_of_opening hrole).symm⟩
    simp [takeOpening, hmem]
  · rw [hclosing]
    cases group.bracket <;> simp <;> decide
  · have hbegun : after.begun = .text [] := by
      rcases takeComma_cases hcomma with ⟨lead, -, -, rfl⟩ | ⟨lead, bracket, children, -, rfl⟩
      · rfl
      · rfl
    simp [hbegun, Role.eq_of_comma hrole]
  · have hplain := Role.of_eq_plain_iff.1 hrole
    have hopening : c ∉ Bracket.openings := fun hmem => hplain (List.mem_append_left _ hmem)
    have hcomma := Role.ne_separator (by rw [hrole]; exact Role.noConfusion)
    simp [takePlain, hopening, hcomma]

theorem step_ne_initial (h : pass.step gap c = some after) : after ≠ initial := by
  rintro rfl
  rcases step_cases h with ⟨bracket, -, hopening⟩ | ⟨group, outer, -, -, -, hclosing⟩ |
    ⟨-, hcomma⟩ | ⟨-, hplain⟩
  · cases hopening
  · simp [initial] at hclosing
  · rcases takeComma_cases hcomma with ⟨lead, -, -, hafter⟩ | ⟨lead, bracket, children, -, hafter⟩
    · simp [initial] at hafter
    · simp [initial] at hafter
  · simp [takePlain, initial] at hplain

theorem finish_ok_iff :
    (∃ forest, pass.finish gap = .ok forest) ↔
      pass.opened = [] ∧ (pass = initial → gap ≠ []) := by
  obtain ⟨opened, nodes, begun⟩ := pass
  cases opened with
  | cons group outer => simp [finish]
  | nil =>
      cases begun with
      | group lead bracket children => simp [finish, settled, ending, leafOf, initial]
      | text lead =>
          cases nodes with
          | nil =>
              cases lead with
              | nil => cases gap <;> simp [finish, settled, ending, leafOf, initial]
              | cons c lead => simp [finish, settled, ending, leafOf, initial]
          | cons node nodes => simp [finish, settled, initial]

/-- A pass comes to a forest if no comma stops it and it leaves no bracket open. -/
theorem run_ok_iff (trail : Trail) (h : pass = initial → trail ≠ .stop []) :
    (∃ forest, pass.run trail = .ok forest) ↔
      ¬ trail.Offending (pass.begun = .text []) ∧
        trail.chars.foldl Bracket.scan pass.brackets = [] := by
  induction trail generalizing pass with
  | stop gap =>
      have hgap : pass = initial → gap ≠ [] := by
        rintro hpass rfl
        exact h hpass rfl
      rw [run, finish_ok_iff]
      simpa [Trail.Offending, Trail.chars, brackets] using fun _ => hgap
  | step gap c next ih =>
      rw [run, Trail.Offending, Trail.chars, List.foldl_cons]
      cases hstep : pass.step gap c with
      | none =>
          obtain ⟨hcomma, hbegun, hgap⟩ := step_eq_none_iff.1 hstep
          simp [hcomma, hbegun, hgap]
      | some after =>
          have hnone : ¬ (pass.begun = .text [] ∧ gap = [] ∧ c = separator) := by
            rintro ⟨hbegun, hgap, hcomma⟩
            rw [step_eq_none_iff.2 ⟨hcomma, hbegun, hgap⟩] at hstep
            cases hstep
          have hrest := ih (fun hinitial => absurd hinitial (step_ne_initial hstep))
          rw [begun_step_iff hstep, brackets_step hstep] at hrest
          simp only [hnone, false_or]
          exact hrest

end Pass

theorem Text.accepted_iff (text : Text) :
    text.Accepted ↔ ∃ forest, Pass.initial.run (Trail.ofText text) = .ok forest := by
  have hspelled := Trail.text_ofText text
  by_cases hempty : text = []
  · subst hempty
    constructor
    · intro haccepted
      exact absurd rfl haccepted.ne_nil
    · rintro ⟨forest, hrun⟩
      cases hrun
  · have htrail : Trail.ofText text ≠ .stop [] := by
      intro hstop
      rw [hstop] at hspelled
      exact hempty hspelled.symm
    have hoffends := text.exists_offends_iff
    rw [Pass.run_ok_iff _ fun _ => htrail]
    simp only [Pass.initial, ← hoffends, not_exists]
    constructor
    · intro haccepted
      exact ⟨haccepted.not_offends, haccepted.leftOpen_eq⟩
    · rintro ⟨hcommas, hopen⟩
      exact ⟨hempty, hcommas, hopen⟩

/-- The reader comes to a forest for the accepted texts and no others, and below the
nesting limit it does come to an end. -/
theorem Forest.read_ne_nil_iff (limit : Nat) (text : Text) :
    (text.nesting < limit → ∃ reading, Forest.read limit text = .ok reading) ∧
    ∀ reading, Forest.read limit text = .ok reading → (reading.forest ≠ [] ↔ text.Accepted) := by
  refine ⟨Forest.exists_read, ?_⟩
  intro reading hread
  rw [Text.accepted_iff]
  constructor
  · intro hne
    exact ⟨_, (run_eq_ok_iff hread).2 ⟨rfl, hne⟩⟩
  · rintro ⟨forest, hrun⟩
    obtain ⟨rfl, hne⟩ := (run_eq_ok_iff hread).1 hrun
    exact hne

/-- A closing bracket of another kind is text, and so is one where nothing is open. -/
theorem Forest.read_ne_nil_mismatched :
    Text.Accepted ['(', ']', ')', '}'] ∧
      ∃ reading, Forest.read 2 ['(', ']', ')', '}'] = .ok reading ∧ reading.forest ≠ [] := by
  have hnesting : Text.nesting ['(', ']', ')', '}'] < 2 := by decide +kernel
  have hforest : (Forest.read 2 ['(', ']', ')', '}']).map Reading.forest =
      .ok [.group [] .round [.leaf [']'] false] false, .leaf ['}'] false] := rfl
  obtain ⟨reading, hread⟩ := (read_ne_nil_iff 2 _).1 hnesting
  rw [hread] at hforest
  have hne : reading.forest ≠ [] := by
    rw [Except.ok.inj hforest]
    exact List.cons_ne_nil _ _
  exact ⟨((read_ne_nil_iff 2 _).2 reading hread).1 hne, reading, hread, hne⟩

end Bracketed
