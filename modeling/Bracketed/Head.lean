import Bracketed.Fault
import Bracketed.Trail

/-!
# Read heads

A head stands in a text and never rests inside a quoted span. It remembers where
the gap in front of it begins, so that the quoted text can still be handed to
whoever cuts out a piece that ends at another head. A head holds the trail of
what lies ahead of it; that trail is a function of the text and the start, so a
head has no other memory.
-/

namespace Bracketed

/-- A text under a number of its own. Heads share a text only if their sources
carry the same number, whatever the texts say. -/
structure Source where
  id : Nat
  text : Text
deriving DecidableEq, Repr

structure Head where
  source : Source
  start : Nat
  ahead : Trail
  ahead_eq : ahead = Trail.ofText (source.text.drop start)

namespace Head

/-- A head whose gap begins at the given place, which may lie beyond the end. -/
def fresh (source : Source) (start : Nat) : Head :=
  ⟨source, start, Trail.ofText (source.text.drop start), rfl⟩

/-- A head at the beginning of a text. -/
def ofText (text : Text) : Head :=
  fresh ⟨0, text⟩ 0

/-- The place of the head itself, behind its gap. -/
def offset (head : Head) : Nat :=
  head.start + head.ahead.gap.length

def isEmpty (head : Head) : Bool :=
  match head.ahead with
  | .stop _ => true
  | .step .. => false

def front? (head : Head) : Option Char :=
  match head.ahead with
  | .stop _ => none
  | .step _ char _ => some char

/-- The unquoted character under the head. -/
def front (head : Head) : Except Fault Char :=
  match head.ahead with
  | .stop _ => .error .noFront
  | .step _ char _ => .ok char

/-- The head one unquoted character further, behind the gap that follows. -/
def advance (head : Head) : Except Fault Head :=
  match hahead : head.ahead with
  | .stop _ => .error .pastEnd
  | .step gap _ next =>
      .ok ⟨head.source, head.start + gap.length + 1, next, by
        have hnext := Trail.ofText_drop_step (head.ahead_eq.symm.trans hahead)
        rw [List.drop_drop, ← Nat.add_assoc] at hnext
        exact hnext.symm⟩

/-- A head at the same place whose gap counts as already read. -/
def anchored (head : Head) : Head :=
  ⟨head.source, head.offset, head.ahead.dropGap, by
    have hgap := Trail.ofText_drop_gap (head.source.text.drop head.start)
    rw [← head.ahead_eq, List.drop_drop] at hgap
    exact hgap.symm⟩

/-- The first head from here on that stands on one of `stops`, or at the end. -/
def seek (stops : Text) (head : Head) : Head :=
  ⟨head.source, (head.ahead.seek stops head.start).1, (head.ahead.seek stops head.start).2,
    Trail.seek_eq_ofText head.ahead_eq⟩

/-- The text from the start of one head up to the place of another. -/
def textUntil (head other : Head) : Except Fault Text :=
  if other.source.id ≠ head.source.id then .error .foreignText
  else if other.offset < head.start then .error (.behind other.offset head.start)
  else .ok ((head.source.text.drop head.start).take (other.offset - head.start))

def describe (head : Head) : String :=
  s!"QuotedText(start={head.start}, offset={head.offset}, len={head.source.text.length})"

theorem start_le_offset (head : Head) : head.start ≤ head.offset :=
  Nat.le_add_right head.start _

theorem offset_anchored (head : Head) : head.anchored.offset = head.offset := by
  cases hahead : head.ahead <;> simp [anchored, offset, hahead, Trail.dropGap, Trail.gap]

end Head

end Bracketed
