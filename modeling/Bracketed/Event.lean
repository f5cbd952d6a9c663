import Bracketed.Bracket
import Bracketed.Width.Basic

/-!
# Events

What the library reports about its work: why a text was left alone, where a
width came from, how many lines a file had. Every event has a level, the part of
the library that reports it, and one wording.
-/

namespace Bracketed

inductive Level
  | debug
  | info
  | warning
  | error
deriving DecidableEq, Repr

/-- The part of the library that reports an event. -/
inductive Origin
  | reader
  | formatter
  | terminal
  | command
deriving DecidableEq, Repr

inductive Event
  /-- The text ended inside a group that began with this lead and bracket. -/
  | unclosed (bracket : Bracket) (lead : Text)
  /-- The reader gave up at this place of a text of this length. -/
  | abandoned (offset length : Nat)
  /-- A text without structure came back unchanged. -/
  | unstructured
  /-- A text of this length came back unchanged, for its groups nest too deep. -/
  | tooDeep (length : Nat)
  | widthFromOption (width : Width)
  | widthFromVariable (count : Int)
  | widthFromTerminal (count : Int)
  | widthAssumed (count : Int)
  /-- The width variable held a text that is no positive number. -/
  | variableIgnored (raw : Text)
  /-- The controlling terminal did not tell its size, for this reason. -/
  | terminalSizeless (reason : Text)
  | fileDone (path : Text) (lines : Nat) (width : Width)
  /-- What the command was about when it ended against its will. -/
  | traced (text : Text)
deriving DecidableEq, Repr

namespace Event

/-- The environment variable that may hold a width. -/
def widthVariable : String := "PARENPP_WIDTH"

def level : Event → Level
  | tooDeep _ => .warning
  | variableIgnored _ => .warning
  | fileDone _ _ _ => .info
  | traced _ => .error
  | _ => .debug

def origin : Event → Origin
  | unclosed _ _ => .reader
  | abandoned _ _ => .reader
  | unstructured => .formatter
  | tooDeep _ => .formatter
  | fileDone _ _ _ => .command
  | traced _ => .command
  | _ => .terminal

def message : Event → String
  | unclosed bracket lead =>
      s!"Unclosed '{bracket.opening}' after prefix {String.ofList lead.literal}"
  | abandoned offset length => s!"Parse abandoned at offset {offset} of {length}"
  | unstructured => "No paren tree found, returning input unchanged"
  | tooDeep length =>
      s!"Nesting too deep to format ({length} chars), returning input unchanged"
  | widthFromOption width => s!"Width {width.written} from command line"
  | widthFromVariable count => s!"Width {count} from {widthVariable}"
  | widthFromTerminal count => s!"Width {count} from terminal"
  | widthAssumed count => s!"No terminal found, using {count} columns"
  | variableIgnored raw =>
      s!"Ignoring {widthVariable}={String.ofList raw.literal}: expected a positive integer"
  | terminalSizeless reason => s!"/dev/tty has no size: {String.ofList reason}"
  | fileDone path lines width =>
      s!"{String.ofList path}: {lines} line(s) at width {width.written}"
  | traced text => String.ofList text

/-- Whether an event is shown to a reader who did not ask for details. -/
def isUrgent (event : Event) : Bool :=
  event.level = .warning || event.level = .error

end Event

end Bracketed
