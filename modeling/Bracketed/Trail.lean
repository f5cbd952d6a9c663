import Bracketed.Text.Basic

/-!
# Trails

A text read from outside any quote is a run of quoted spans, an unquoted
character, again a run of quoted spans, and so on to its end. A run of adjacent
spans, empty or not, is called a gap, and the whole sequence a trail. A span that
is never closed reaches the end of the text.

The main statements are that a trail spells out its text, and that what follows
an unquoted character is the trail of the rest of the text.
-/

namespace Bracketed

/-! ## Quote marks

Three marks quote a text. Between double and between single quotes a backslash
makes the character after it ordinary; between back quotes it means nothing. -/

inductive Mark
  | double
  | single
  | back
deriving DecidableEq, Repr

namespace Mark

def char : Mark → Char
  | double => '\x22'
  | single => '\x27'
  | back => '\x60'

/-- Whether a backslash escapes the next character between these marks. -/
def escapes : Mark → Bool
  | double => true
  | single => true
  | back => false

def all : List Mark :=
  [double, single, back]

def ofChar? (c : Char) : Option Mark :=
  all.find? fun mark => mark.char = c

theorem char_of_ofChar? {c : Char} {mark : Mark} (h : ofChar? c = some mark) :
    mark.char = c := by
  simpa using List.find?_some h

end Mark

/-! ## Trails -/

inductive Trail
  /-- The gap before the end of the text. -/
  | stop (gap : Text)
  /-- A gap, the unquoted character after it, and what follows. -/
  | step (gap : Text) (char : Char) (next : Trail)
deriving DecidableEq, Repr

namespace Trail

/-- The gap at the front. -/
def gap : Trail → Text
  | stop gap => gap
  | step gap _ _ => gap

/-- The trail behind its first gap. -/
def dropGap : Trail → Trail
  | stop _ => stop []
  | step _ char next => step [] char next

/-- The trail with one more character at the start of its first gap. -/
def widen (c : Char) : Trail → Trail
  | stop gap => stop (c :: gap)
  | step gap char next => step (c :: gap) char next

/-- The text that a trail spells out. -/
def text : Trail → Text
  | stop gap => gap
  | step gap char next => gap ++ char :: next.text

/-- The number of unquoted characters. -/
def length : Trail → Nat
  | stop _ => 0
  | step _ _ next => next.length + 1

mutual

/-- The trail of a text that begins outside any quote. -/
def ofText : Text → Trail
  | [] => stop []
  | c :: rest =>
      match Mark.ofChar? c with
      | none => step [] c (ofText rest)
      | some mark => (ofQuoted mark rest).widen c

/-- The trail of a text that begins inside a quoted span. -/
def ofQuoted (mark : Mark) : Text → Trail
  | [] => stop []
  | c :: rest =>
      if c = mark.char then (ofText rest).widen c
      else if mark.escapes ∧ c = '\\' then
        match rest with
        | [] => stop [c]
        | escaped :: rest => ((ofQuoted mark rest).widen escaped).widen c
      else (ofQuoted mark rest).widen c

end

theorem gap_widen (c : Char) (trail : Trail) : (trail.widen c).gap = c :: trail.gap := by
  cases trail <;> rfl

theorem dropGap_widen (c : Char) (trail : Trail) :
    (trail.widen c).dropGap = trail.dropGap := by
  cases trail <;> rfl

theorem text_widen (c : Char) (trail : Trail) : (trail.widen c).text = c :: trail.text := by
  cases trail <;> rfl

theorem text_eq_gap_append (trail : Trail) : trail.text = trail.gap ++ trail.dropGap.text := by
  cases trail <;> simp [text, gap, dropGap]

mutual

theorem text_ofText (source : Text) : (ofText source).text = source := by
  cases source with
  | nil => rfl
  | cons c rest =>
      unfold ofText
      split
      · simp [text, text_ofText rest]
      · simp [text_widen, text_ofQuoted _ rest]

theorem text_ofQuoted (mark : Mark) (source : Text) : (ofQuoted mark source).text = source := by
  match source with
  | [] => rfl
  | [c] =>
      unfold ofQuoted
      split
      · simp [text_widen, text_ofText []]
      · split <;> simp [text_widen, text, ofQuoted]
  | c :: escaped :: rest =>
      unfold ofQuoted
      split
      · simp [text_widen, text_ofText (escaped :: rest)]
      · split
        · simp [text_widen, text_ofQuoted mark rest]
        · simp [text_widen, text_ofQuoted mark (escaped :: rest)]

end

mutual

theorem ofText_drop_gap (source : Text) :
    ofText (source.drop (ofText source).gap.length) = (ofText source).dropGap := by
  cases source with
  | nil => rfl
  | cons c rest =>
      cases hmark : Mark.ofChar? c with
      | none => simp [ofText, hmark, gap, dropGap]
      | some mark =>
          have ih := ofQuoted_drop_gap mark rest
          simp [ofText, hmark, gap_widen, dropGap_widen, ih]

theorem ofQuoted_drop_gap (mark : Mark) (source : Text) :
    ofText (source.drop (ofQuoted mark source).gap.length) =
      (ofQuoted mark source).dropGap := by
  match source with
  | [] => rfl
  | [c] =>
      unfold ofQuoted
      split
      · simpa [gap_widen, dropGap_widen] using ofText_drop_gap []
      · split <;> rfl
  | c :: escaped :: rest =>
      unfold ofQuoted
      split
      · simpa [gap_widen, dropGap_widen] using ofText_drop_gap (escaped :: rest)
      · split
        · simpa [gap_widen, dropGap_widen] using ofQuoted_drop_gap mark rest
        · simpa [gap_widen, dropGap_widen] using ofQuoted_drop_gap mark (escaped :: rest)

end

/-- What follows an unquoted character is read from outside any quote. -/
theorem ofText_drop_step {source gap : Text} {char : Char} {next : Trail}
    (h : ofText source = step gap char next) :
    ofText (source.drop (gap.length + 1)) = next := by
  have hdrop := ofText_drop_gap source
  rw [h] at hdrop
  rw [← List.drop_drop]
  change ofText (source.drop gap.length) = step [] char next at hdrop
  cases hrest : source.drop gap.length with
  | nil =>
      rw [hrest] at hdrop
      cases hdrop
  | cons c rest =>
      rw [hrest] at hdrop
      unfold ofText at hdrop
      split at hdrop
      · cases hdrop
        rfl
      · next mark _ =>
          have hgap := congrArg Trail.gap hdrop
          rw [gap_widen] at hgap
          cases hgap

/-! ## Seeking -/

/-- Steps over unquoted characters up to one of `stops`, or to the end. The
result is the place reached and the trail from there, counted from `start`. -/
def seek (stops : Text) (start : Nat) : Trail → Nat × Trail
  | stop gap => (start, stop gap)
  | step gap char next =>
      if char ∈ stops then (start, step gap char next)
      else next.seek stops (start + gap.length + 1)

theorem seek_eq_ofText {source stops : Text} {start : Nat} {trail : Trail}
    (h : trail = ofText (source.drop start)) :
    (trail.seek stops start).2 = ofText (source.drop (trail.seek stops start).1) := by
  induction trail generalizing start with
  | stop gap => exact h
  | step gap char next ih =>
      unfold seek
      split
      · exact h
      · have hnext := ofText_drop_step h.symm
        rw [List.drop_drop, ← Nat.add_assoc] at hnext
        exact ih hnext.symm

theorem start_le_seek (stops : Text) (start : Nat) (trail : Trail) :
    start ≤ (trail.seek stops start).1 := by
  induction trail generalizing start with
  | stop gap => exact Nat.le_refl start
  | step gap char next ih =>
      unfold seek
      split
      · exact Nat.le_refl start
      · have hnext := ih (start + gap.length + 1)
        omega

end Trail

end Bracketed
