import Bracketed.Text.Literal

/-!
# Faults

What an operation can refuse, by cause. The wording of every cause stands in one
function.
-/

namespace Bracketed

inductive Fault
  /-- Asking for the character under a head at the end of its text. -/
  | noFront
  /-- Moving a head that is at the end of its text. -/
  | pastEnd
  /-- Cutting out the text between heads of two different texts. -/
  | foreignText
  /-- Cutting out the text up to a head that lies before the start. -/
  | behind (offset start : Nat)
  /-- A text that is no opening bracket. -/
  | notOpening (given : Text)
  /-- A text that is no pair of brackets. -/
  | unknownBracket (given : Text)
  /-- A node that has children but no bracket around them. -/
  | childrenWithoutBracket
  /-- A text after a node that is neither empty nor one comma. -/
  | badSuffix (given : Text)
  /-- A text that is no whole number where a width is wanted. -/
  | badWidth (given : Text)
  /-- A width below one. -/
  | widthTooSmall (width : Int)
  /-- Laying out a forest within a width that has no number. -/
  | vacantWidth
  /-- Groups nested deeper than the reader goes. -/
  | tooDeep
  /-- A reader that no longer moves. -/
  | stalled
deriving DecidableEq, Repr

namespace Fault

def message : Fault → String
  | noFront => "front of exhausted QuotedText"
  | pastEnd => "advance past end of QuotedText"
  | foreignText => "cursors do not share the same text"
  | behind offset start => s!"cursor at {offset} lies before start {start}"
  | notOpening given => String.ofList given.literal
  | unknownBracket given => s!"{String.ofList given.literal} is not a valid Delimiter"
  | childrenWithoutBracket => "a Tree without delimiter cannot have children"
  | badSuffix given => s!"invalid Tree suffix: {String.ofList given.literal}"
  | badWidth given => s!"invalid width: {String.ofList given.literal}"
  | widthTooSmall width => s!"width must be positive, got {width}"
  | vacantWidth => "unsupported operand type(s) for -: 'list' and 'int'"
  | tooDeep => "nesting too deep"
  | stalled => "no progress"

end Fault

end Bracketed
