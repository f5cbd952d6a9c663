import Bracketed.Layout
import Bracketed.Reading

/-!
# Formatting

A text is formatted by reading it as a forest and laying the forest out within a
width. A text that has no structure, or nests too deep, comes back unchanged,
whatever the width. Only a forest needs a width that is a number.

How deep is too deep is set from outside, and stands for all that is done with a
text: what can be read below the limit is taken to be laid out below it as well,
so only reading finds a text too deep.
-/

namespace Bracketed

/-- The forest that a text is laid out from, empty if the text stays as it is, and
the reports on reading it. -/
structure Examined where
  forest : Forest
  events : List Event
deriving DecidableEq, Repr

def examine (limit : Nat) (text : Text) : Examined :=
  match Forest.read limit text with
  -- nothing else is wrong with a text that cannot be read
  | .error _ => ⟨[], [.tooDeep text.length]⟩
  | .ok reading =>
      match reading.forest with
      | [] => ⟨[], reading.events ++ [.unstructured]⟩
      | forest => ⟨forest, reading.events⟩

/-- A formatted text, and the reports on its way. -/
structure Formatted where
  text : Text
  events : List Event
deriving DecidableEq, Repr

def format (limit : Nat) (text : Text) (width : Int) : Formatted :=
  let examined := examine limit text
  match examined.forest with
  | [] => ⟨text, examined.events⟩
  | forest => ⟨forest.render width, examined.events⟩

/-- Formatting within a width that may be vacant. -/
def formatWithin (limit : Nat) (text : Text) (width : Width) : Except Fault Formatted :=
  match width with
  | .columns count => .ok (format limit text count)
  | .vacant =>
      let examined := examine limit text
      if examined.forest.isEmpty then .ok ⟨text, examined.events⟩ else .error .vacantWidth

theorem events_format (limit : Nat) (text : Text) (width : Int) :
    (format limit text width).events = (examine limit text).events := by
  unfold format
  dsimp only
  split <;> rfl

end Bracketed
