import Bracketed.Proofs.Role

/-!
# Quoting

Read from left to right, every character of a text finds the reader outside any
quote, between two marks, or right behind a backslash that escapes it.  A text that
leads back outside is closed, and what follows a closed text is read as if nothing
stood before it.
-/

namespace Bracketed

inductive Quoting
  | outside
  | inside (mark : Mark)
  /-- Behind a backslash between two marks. -/
  | escaped (mark : Mark)
deriving DecidableEq, Repr

namespace Quoting

/-- Where one more character leads. -/
def step (quoting : Quoting) (c : Char) : Quoting :=
  match quoting with
  | outside =>
      match Mark.ofChar? c with
      | none => outside
      | some mark => inside mark
  | inside mark =>
      if c = mark.char then outside
      else if mark.escapes ∧ c = '\\' then escaped mark
      else inside mark
  | escaped mark => inside mark

/-- A character is unquoted here. -/
def Shows (quoting : Quoting) (c : Char) : Prop :=
  quoting = outside ∧ Mark.ofChar? c = none

instance (quoting : Quoting) (c : Char) : Decidable (quoting.Shows c) :=
  inferInstanceAs (Decidable (_ ∧ _))

/-- The trail of a text that is read from here on. -/
def trail : Quoting → Text → Trail
  | outside, text => Trail.ofText text
  | inside mark, text => Trail.ofQuoted mark text
  | escaped _, [] => .stop []
  | escaped mark, c :: rest => (Trail.ofQuoted mark rest).widen c

theorem trail_nil (quoting : Quoting) : quoting.trail [] = .stop [] := by
  cases quoting with
  | outside => simp [trail, Trail.ofText]
  | inside mark => simp [trail, Trail.ofQuoted]
  | escaped mark => rfl

theorem step_of_shows {quoting : Quoting} {c : Char} (h : quoting.Shows c) :
    quoting.step c = outside := by
  obtain ⟨rfl, hmark⟩ := h
  simp [step, hmark]

/-- An unquoted character is a step of the trail. -/
theorem trail_cons_of_shows {quoting : Quoting} {c : Char} (h : quoting.Shows c) (rest : Text) :
    quoting.trail (c :: rest) = .step [] c ((quoting.step c).trail rest) := by
  rw [step_of_shows h]
  obtain ⟨rfl, hmark⟩ := h
  simp [trail, Trail.ofText, hmark]

/-- Any other belongs to the gap. -/
theorem trail_cons_of_not_shows {quoting : Quoting} {c : Char} (h : ¬ quoting.Shows c)
    (rest : Text) :
    quoting.trail (c :: rest) = ((quoting.step c).trail rest).widen c := by
  cases quoting with
  | outside =>
      cases hmark : Mark.ofChar? c with
      | none => exact absurd ⟨rfl, hmark⟩ h
      | some mark => simp [trail, Trail.ofText, step, hmark]
  | inside mark =>
      by_cases hclose : c = mark.char
      · have hstep : (inside mark).step c = outside := by simp [step, hclose]
        rw [hstep, trail, trail, Trail.ofQuoted.eq_def]
        exact if_pos hclose
      · by_cases hescape : mark.escapes ∧ c = '\\'
        · have hstep : (inside mark).step c = escaped mark := by
            rw [step, if_neg hclose, if_pos hescape]
          rw [hstep]
          cases rest with
          | nil =>
              rw [trail_nil, trail, Trail.ofQuoted, if_neg hclose, if_pos hescape]
              rfl
          | cons next rest =>
              rw [trail, trail, Trail.ofQuoted, if_neg hclose, if_pos hescape]
        · have hstep : (inside mark).step c = inside mark := by
            rw [step, if_neg hclose, if_neg hescape]
          rw [hstep, trail, trail, Trail.ofQuoted.eq_def]
          exact (if_neg hclose).trans (if_neg hescape)
  | escaped mark => rfl

end Quoting

/-! ## One trail behind another -/

namespace Trail

/-- The trail with more text at the start of its first gap. -/
def prepend (text : Text) : Trail → Trail
  | stop gap => stop (text ++ gap)
  | step gap char next => step (text ++ gap) char next

/-- A trail behind another, whose last gap runs into its first. -/
def append : Trail → Trail → Trail
  | stop gap, second => second.prepend gap
  | step gap char next, second => step gap char (next.append second)

theorem chars_prepend (text : Text) (trail : Trail) : (trail.prepend text).chars = trail.chars := by
  cases trail <;> rfl

theorem chars_append (first second : Trail) :
    (first.append second).chars = first.chars ++ second.chars := by
  induction first with
  | stop gap => exact chars_prepend gap second
  | step gap char next ih => simp [append, chars, ih]

theorem append_widen (c : Char) (first second : Trail) :
    (first.widen c).append second = (first.append second).widen c := by
  cases first with
  | stop gap => cases second <;> rfl
  | step gap char next => rfl

theorem ofText_cons {c : Char} (h : Mark.ofChar? c = none) (rest : Text) :
    ofText (c :: rest) = step [] c (ofText rest) := by
  simp [ofText, h]

theorem nil_append (trail : Trail) : (stop []).append trail = trail := by
  cases trail <;> rfl

end Trail

/-- What comes behind a text is read from where the text leads. -/
theorem Quoting.trail_append (quoting : Quoting) (first second : Text) :
    quoting.trail (first ++ second) =
      (quoting.trail first).append ((first.foldl step quoting).trail second) := by
  induction first generalizing quoting with
  | nil => rw [trail_nil, Trail.nil_append, List.nil_append, List.foldl_nil]
  | cons c rest ih =>
      by_cases hshows : quoting.Shows c
      · rw [List.cons_append, trail_cons_of_shows hshows, trail_cons_of_shows hshows, ih]
        rfl
      · rw [List.cons_append, trail_cons_of_not_shows hshows, trail_cons_of_not_shows hshows,
          ih, Trail.append_widen]
        rfl

/-! ## Closed texts -/

namespace Text

/-- Every quote that a text begins, it also ends. -/
def Closed (text : Text) : Prop :=
  text.foldl Quoting.step .outside = .outside

instance (text : Text) : Decidable text.Closed :=
  inferInstanceAs (Decidable (_ = _))

/-- A text of quoted spans only, the last of which may be left open. -/
def Quoted (text : Text) : Prop :=
  text.unquoted = []

instance (text : Text) : Decidable text.Quoted :=
  inferInstanceAs (Decidable (_ = _))

variable {first second text : Text} {c : Char}

theorem closed_nil : Closed [] :=
  rfl

theorem Closed.append (h : first.Closed) (h' : second.Closed) : (first ++ second).Closed := by
  unfold Closed at h h' ⊢
  rw [List.foldl_append, h, h']

theorem closed_singleton (h : Mark.ofChar? c = none) : Closed [c] :=
  Quoting.step_of_shows ⟨rfl, h⟩

theorem Closed.ofText_append (h : first.Closed) (second : Text) :
    Trail.ofText (first ++ second) = (Trail.ofText first).append (Trail.ofText second) := by
  have hread := Quoting.outside.trail_append first second
  rw [h] at hread
  exact hread

theorem Closed.unquoted_append (h : first.Closed) (second : Text) :
    (first ++ second).unquoted = first.unquoted ++ second.unquoted := by
  rw [unquoted, h.ofText_append, Trail.chars_append]
  rfl

theorem unquoted_cons (h : Mark.ofChar? c = none) (rest : Text) :
    unquoted (c :: rest) = c :: rest.unquoted := by
  rw [unquoted, Trail.ofText_cons h]
  rfl

theorem closed_cons_iff (h : Mark.ofChar? c = none) (rest : Text) :
    Closed (c :: rest) ↔ rest.Closed := by
  rw [Closed, List.foldl_cons, Quoting.step_of_shows ⟨rfl, h⟩]
  rfl

/-- A quoted text begins with a mark, unless it is empty. -/
theorem Quoted.head_mark (h : Quoted (c :: text)) : ∃ mark, Mark.ofChar? c = some mark := by
  cases hmark : Mark.ofChar? c with
  | some mark => exact ⟨mark, rfl⟩
  | none =>
      rw [Quoted, unquoted_cons hmark] at h
      cases h

end Text

/-! ## Trails of texts -/

/-- A trail whose gaps are quoted text, closed but for the last, and whose characters
are unquoted.  The first gap begins where `quoting` says. -/
def Trail.Regular (quoting : Quoting) : Trail → Prop
  | stop gap => quoting.trail gap = .stop gap
  | step gap char next =>
      quoting.trail gap = .stop gap ∧ gap.foldl Quoting.step quoting = .outside ∧
        Mark.ofChar? char = none ∧ next.Regular .outside

theorem Trail.Regular.widen {quoting : Quoting} {c : Char} {trail : Trail}
    (hshows : ¬ quoting.Shows c) (h : trail.Regular (quoting.step c)) :
    (trail.widen c).Regular quoting := by
  have hgap : ∀ gap, (quoting.step c).trail gap = .stop gap →
      quoting.trail (c :: gap) = .stop (c :: gap) := by
    intro gap hread
    rw [Quoting.trail_cons_of_not_shows hshows, hread]
    rfl
  cases trail with
  | stop gap => exact hgap gap h
  | step gap char next =>
      obtain ⟨hread, hclosed, hnext⟩ := h
      exact ⟨hgap gap hread, hclosed, hnext⟩

theorem Quoting.regular_trail (quoting : Quoting) (text : Text) :
    (quoting.trail text).Regular quoting := by
  induction text generalizing quoting with
  | nil =>
      rw [trail_nil]
      exact quoting.trail_nil
  | cons c rest ih =>
      by_cases hshows : quoting.Shows c
      · rw [trail_cons_of_shows hshows]
        have hrest := ih (quoting.step c)
        rw [step_of_shows hshows] at hrest ⊢
        exact ⟨quoting.trail_nil, hshows.1, hshows.2, hrest⟩
      · rw [trail_cons_of_not_shows hshows]
        exact Trail.Regular.widen hshows (ih _)

namespace Trail

variable {gap : Text} {char : Char} {rest : Trail}

theorem regular_ofText (text : Text) : (ofText text).Regular .outside :=
  Quoting.outside.regular_trail text

theorem quoted_of_ofText {text : Text} (h : ofText text = stop gap) : text.Quoted := by
  rw [Text.Quoted, Text.unquoted, h]
  rfl

theorem Regular.quoted_stop (h : (stop gap).Regular .outside) : gap.Quoted :=
  quoted_of_ofText h

theorem Regular.quoted (h : (step gap char rest).Regular .outside) : gap.Quoted :=
  quoted_of_ofText h.1

theorem Regular.closed (h : (step gap char rest).Regular .outside) : gap.Closed :=
  h.2.1

theorem Regular.unquoted (h : (step gap char rest).Regular .outside) :
    Mark.ofChar? char = none :=
  h.2.2.1

theorem Regular.next (h : (step gap char rest).Regular .outside) : rest.Regular .outside :=
  h.2.2.2

end Trail

end Bracketed
