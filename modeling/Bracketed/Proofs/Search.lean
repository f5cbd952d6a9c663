import Bracketed.Trail

/-!
# Searching a trail

Looking for a character splits a trail in two: the text that is passed over, and
the trail from the gap in front of the character on.  A search for more characters
stops no later, and a search for fewer can be taken up where it stopped.
-/

namespace Bracketed.Trail

/-- The unquoted characters, in order. -/
def chars : Trail → Text
  | stop _ => []
  | step _ char next => char :: next.chars

/-- The text up to the gap before the first of `stops`, or before the end. -/
def passed (stops : Text) : Trail → Text
  | stop _ => []
  | step gap char next => if char ∈ stops then [] else gap ++ char :: next.passed stops

/-- The trail from the gap before the first of `stops`, or before the end. -/
def found (stops : Text) : Trail → Trail
  | stop gap => stop gap
  | step gap char next => if char ∈ stops then step gap char next else next.found stops

/-- The text up to the first of `stops`, or to the end. -/
def upTo (stops : Text) (trail : Trail) : Text :=
  trail.passed stops ++ (trail.found stops).gap

variable {stops : Text} {gap : Text} {char : Char} {next : Trail}

theorem passed_step_of_mem (h : char ∈ stops) : (step gap char next).passed stops = [] := by
  simp [passed, h]

theorem passed_step_of_not_mem (h : char ∉ stops) :
    (step gap char next).passed stops = gap ++ char :: next.passed stops := by
  simp [passed, h]

theorem found_step_of_mem (h : char ∈ stops) :
    (step gap char next).found stops = step gap char next := by
  simp [found, h]

theorem found_step_of_not_mem (h : char ∉ stops) :
    (step gap char next).found stops = next.found stops := by
  simp [found, h]

/-- Seeking counts what it passes over. -/
theorem seek_eq (stops : Text) (start : Nat) (trail : Trail) :
    trail.seek stops start = (start + (trail.passed stops).length, trail.found stops) := by
  induction trail generalizing start with
  | stop gap => rfl
  | step gap char next ih =>
      by_cases hchar : char ∈ stops
      · simp [seek, passed, found, hchar]
      · simp only [seek, passed, found, hchar, if_false, ih, List.length_append,
          List.length_cons, Prod.mk.injEq, and_true]
        omega

theorem passed_append_text_found (stops : Text) (trail : Trail) :
    trail.passed stops ++ (trail.found stops).text = trail.text := by
  induction trail with
  | stop gap => rfl
  | step gap char next ih =>
      by_cases hchar : char ∈ stops
      · simp [passed, found, hchar]
      · simp [passed, found, hchar, text, ih]

theorem length_found_le (stops : Text) (trail : Trail) :
    (trail.found stops).length ≤ trail.length := by
  induction trail with
  | stop gap => exact Nat.le_refl _
  | step gap char next ih =>
      by_cases hchar : char ∈ stops
      · simp [found, hchar]
      · simp only [found, hchar, if_false, length]
        omega

theorem found_of_passed_nil {trail : Trail} (h : trail.passed stops = []) :
    trail.found stops = trail := by
  cases trail with
  | stop gap => rfl
  | step gap char next =>
      by_cases hchar : char ∈ stops
      · exact found_step_of_mem hchar
      · simp [passed_step_of_not_mem hchar] at h

theorem length_found_lt {trail : Trail} (h : trail.passed stops ≠ []) :
    (trail.found stops).length < trail.length := by
  cases trail with
  | stop gap => exact absurd rfl h
  | step gap char next =>
      by_cases hchar : char ∈ stops
      · exact absurd (passed_step_of_mem hchar) h
      · rw [found_step_of_not_mem hchar]
        exact Nat.lt_succ_of_le (length_found_le stops next)

/-- A search stops only at the end or at what it looks for. -/
theorem mem_of_found_eq_step {trail : Trail}
    (hfound : trail.found stops = step gap char next) : char ∈ stops := by
  induction trail with
  | stop gap => cases hfound
  | step gap' char' next' ih =>
      by_cases hchar : char' ∈ stops
      · rw [found_step_of_mem hchar] at hfound
        cases hfound
        exact hchar
      · rw [found_step_of_not_mem hchar] at hfound
        exact ih hfound

/-! ## A search for fewer characters -/

section Fewer

variable {fewer : Text} {trail : Trail}

theorem found_of_subset (h : fewer ⊆ stops) (trail : Trail) :
    trail.found fewer = (trail.found stops).found fewer := by
  induction trail with
  | stop gap => rfl
  | step gap char next ih =>
      by_cases hchar : char ∈ stops
      · rw [found_step_of_mem hchar]
      · have hfewer : char ∉ fewer := fun hmem => hchar (h hmem)
        rw [found_step_of_not_mem hchar, found_step_of_not_mem hfewer, ih]

theorem passed_of_subset (h : fewer ⊆ stops) (trail : Trail) :
    trail.passed fewer = trail.passed stops ++ (trail.found stops).passed fewer := by
  induction trail with
  | stop gap => rfl
  | step gap char next ih =>
      by_cases hchar : char ∈ stops
      · rw [found_step_of_mem hchar, passed_step_of_mem hchar, List.nil_append]
      · have hfewer : char ∉ fewer := fun hmem => hchar (h hmem)
        rw [found_step_of_not_mem hchar, passed_step_of_not_mem hchar,
          passed_step_of_not_mem hfewer, ih]
        simp

/-- What is not there at all is not found by a search for fewer characters. -/
theorem found_of_stop (h : fewer ⊆ stops) (hfound : trail.found stops = stop gap) :
    trail.found fewer = stop gap ∧ trail.upTo fewer = trail.upTo stops := by
  have hfewer : trail.found fewer = stop gap := by
    rw [found_of_subset h, hfound]
    rfl
  refine ⟨hfewer, ?_⟩
  rw [upTo, upTo, hfewer, passed_of_subset h, hfound]
  simp [passed]

/-- A search for fewer characters stops at the same place if it looks for what
stands there. -/
theorem found_of_mem (h : fewer ⊆ stops) (hfound : trail.found stops = step gap char next)
    (hchar : char ∈ fewer) :
    trail.found fewer = step gap char next ∧ trail.upTo fewer = trail.upTo stops := by
  have hfewer : trail.found fewer = step gap char next := by
    rw [found_of_subset h, hfound, found_step_of_mem hchar]
  refine ⟨hfewer, ?_⟩
  rw [upTo, upTo, hfewer, passed_of_subset h, hfound, passed_step_of_mem hchar,
    List.append_nil]

/-- Otherwise it goes on. -/
theorem upTo_lt_of_not_mem (h : fewer ⊆ stops)
    (hfound : trail.found stops = step gap char next) (hchar : char ∉ fewer) :
    (trail.upTo stops).length < (trail.upTo fewer).length := by
  rw [upTo, upTo, passed_of_subset h, hfound, passed_step_of_not_mem hchar]
  simp only [Trail.gap, List.length_append, List.length_cons]
  omega

end Fewer

end Bracketed.Trail
