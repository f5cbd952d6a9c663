import Bracketed.Head
import Bracketed.Proofs.Search

/-!
# Heads by what lies ahead

Every operation of a head is told by the trail ahead of it.  A head that is moved
stays in its text and goes on behind text that it had ahead, so the cutting of
text between a head and one that was sought from it never fails.
-/

namespace Bracketed.Head

/-- The second head stands in the same text, behind some text ahead of the first. -/
structure Precedes (head next : Head) : Prop where
  source_eq : next.source = head.source
  passed : ∃ passed, head.ahead.text = passed ++ next.ahead.text ∧
    next.start = head.start + passed.length

namespace Precedes

theorem refl (head : Head) : Precedes head head :=
  ⟨rfl, [], rfl, rfl⟩

theorem trans {first second third : Head} (h : Precedes first second)
    (h' : Precedes second third) : Precedes first third := by
  obtain ⟨passed, htext, hstart⟩ := h.passed
  obtain ⟨passed', htext', hstart'⟩ := h'.passed
  refine ⟨h'.source_eq.trans h.source_eq, passed ++ passed', ?_, ?_⟩
  · rw [htext, htext', List.append_assoc]
  · rw [hstart', hstart, List.length_append, Nat.add_assoc]

end Precedes

/-- The number of characters from the place of the head to the end. -/
def unread (head : Head) : Nat :=
  head.ahead.dropGap.text.length

theorem text_ahead (head : Head) : head.ahead.text = head.source.text.drop head.start := by
  rw [head.ahead_eq, Trail.text_ofText]

/-- The place behind all that lies ahead. -/
def ending (head : Head) : Nat :=
  head.start + head.ahead.text.length

theorem ending_eq_length {head : Head} (h : head.start ≤ head.source.text.length) :
    head.ending = head.source.text.length := by
  rw [ending, text_ahead, List.length_drop]
  omega

theorem Precedes.ending_eq {head after : Head} (h : head.Precedes after) :
    after.ending = head.ending := by
  obtain ⟨passed, htext, hstart⟩ := h.passed
  rw [ending, ending, htext, hstart, List.length_append, Nat.add_assoc]

theorem offset_add_unread (head : Head) : head.offset + head.unread = head.ending := by
  rw [offset, unread, ending, head.ahead.text_eq_gap_append, List.length_append, Nat.add_assoc]

theorem isEmpty_of_ahead_stop {head : Head} {gap : Text} (h : head.ahead = .stop gap) :
    head.isEmpty = true := by
  simp [isEmpty, h]

theorem isEmpty_of_ahead_step {head : Head} {gap : Text} {char : Char} {next : Trail}
    (h : head.ahead = .step gap char next) : head.isEmpty = false := by
  simp [isEmpty, h]

theorem front_of_ahead {head : Head} {gap : Text} {char : Char} {next : Trail}
    (h : head.ahead = .step gap char next) : head.front = .ok char := by
  simp [front, h]

theorem advance_of_ahead_stop {head : Head} {gap : Text} (h : head.ahead = .stop gap) :
    head.advance = .error .pastEnd := by
  unfold advance
  split
  · rfl
  · next gap' char' next' hstep => cases h.symm.trans hstep

theorem advance_of_ahead {head : Head} {gap : Text} {char : Char} {next : Trail}
    (h : head.ahead = .step gap char next) :
    ∃ after, head.advance = .ok after ∧ after.ahead = next ∧ Precedes head after := by
  unfold advance
  split
  · next hstop => cases h.symm.trans hstop
  · next gap' char' next' hstep =>
      cases h.symm.trans hstep
      refine ⟨_, rfl, rfl, rfl, gap ++ [char], ?_, ?_⟩
      · simp [h, Trail.text]
      · simp only [List.length_append, List.length_cons, List.length_nil]
        omega

theorem ahead_anchored (head : Head) : head.anchored.ahead = head.ahead.dropGap :=
  rfl

theorem precedes_anchored (head : Head) : Precedes head head.anchored :=
  ⟨rfl, head.ahead.gap, head.ahead.text_eq_gap_append, rfl⟩

theorem ahead_seek (stops : Text) (head : Head) :
    (head.seek stops).ahead = head.ahead.found stops := by
  simp [seek, Trail.seek_eq]

theorem start_seek (stops : Text) (head : Head) :
    (head.seek stops).start = head.start + (head.ahead.passed stops).length := by
  simp [seek, Trail.seek_eq]

theorem precedes_seek (stops : Text) (head : Head) : Precedes head (head.seek stops) := by
  refine ⟨rfl, head.ahead.passed stops, ?_, start_seek stops head⟩
  rw [ahead_seek, Trail.passed_append_text_found]

/-- What a head cuts out up to a head behind it is text it has ahead. -/
theorem textUntil_of_precedes {head other : Head} {passed : Text}
    (hsource : other.source = head.source)
    (htext : head.ahead.text = passed ++ other.ahead.text)
    (hstart : other.start = head.start + passed.length) :
    head.textUntil other = .ok (passed ++ other.ahead.gap) := by
  have hid : ¬ other.source.id ≠ head.source.id := by simp [hsource]
  have horder : ¬ other.offset < head.start := by
    have := other.start_le_offset
    omega
  have hlength : other.offset - head.start = (passed ++ other.ahead.gap).length := by
    simp only [offset, hstart, List.length_append]
    omega
  rw [textUntil, if_neg hid, if_neg horder, ← text_ahead, htext, hlength,
    other.ahead.text_eq_gap_append, ← List.append_assoc, List.take_left]

theorem textUntil_seek (stops : Text) (head : Head) :
    head.textUntil (head.seek stops) = .ok (head.ahead.upTo stops) := by
  rw [Trail.upTo]
  have htext := Trail.passed_append_text_found stops head.ahead
  rw [← ahead_seek] at htext ⊢
  exact textUntil_of_precedes rfl htext.symm (start_seek stops head)

theorem textUntil_self (head : Head) : head.textUntil head = .ok head.ahead.gap := by
  have htext : head.ahead.text = [] ++ head.ahead.text := rfl
  exact textUntil_of_precedes rfl htext rfl

end Bracketed.Head
