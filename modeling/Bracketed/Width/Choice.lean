import Bracketed.Event
import Bracketed.Fault

/-!
# The choice of a width

The width of the output is the one that is asked for, else the one that the
environment variable holds if it is a positive numeral, else the number of
columns of the terminal, else a default.
-/

namespace Bracketed

namespace Width

/-- The number of columns that a text asks for. -/
def read (given : Text) : Except Fault Int :=
  match Numeral.read? given with
  | none => .error (.badWidth given)
  | some count => if count ≤ 0 then .error (.widthTooSmall count) else .ok count

/-- A width, and the reports on how it was found. -/
structure Choice where
  width : Width
  events : List Event
deriving DecidableEq, Repr

/-- The width when none is asked for and the variable holds none. -/
def ofTerminal : Option Int → Choice
  | some count => ⟨columns count, [.widthFromTerminal count]⟩
  | none => ⟨columns defaultWidth, [.widthAssumed defaultWidth]⟩

/-- The width when none is asked for. -/
def ofVariable (environment : Option Text) (terminal : Option Int) : Choice :=
  match environment with
  | none => ofTerminal terminal
  | some raw =>
      match read raw with
      | .ok count => ⟨columns count, [.widthFromVariable count]⟩
      | .error _ =>
          let choice := ofTerminal terminal
          ⟨choice.width, .variableIgnored raw :: choice.events⟩

def choose (asked : Option Width) (environment : Option Text) (terminal : Option Int) : Choice :=
  match asked with
  | some width => ⟨width, [.widthFromOption width]⟩
  | none => ofVariable environment terminal

end Width

/-! ## Terminals

The controlling terminal is asked for its columns first, then the device that the
output goes to. A device without columns does not count. -/

/-- A device that may tell how many columns it has. -/
inductive Device
  /-- There is no such device. -/
  | absent
  /-- The device has no size, for the given reason. -/
  | sizeless (reason : Text)
  | sized (columns : Nat)
deriving DecidableEq, Repr

/-- The columns found, whether the controlling terminal was opened and let go
again, and the reports. -/
structure Probe where
  columns : Option Nat
  released : Bool
  events : List Event
deriving DecidableEq, Repr

namespace Device

/-- The columns of a device; zero columns count as unknown. -/
def columns? : Device → Option Nat
  | absent => none
  | sizeless _ => none
  | sized columns => if columns = 0 then none else some columns

/-- Asks the controlling terminal first, then the device the output goes to. -/
def probe (terminal output : Device) : Probe where
  columns := terminal.columns?.orElse fun _ => output.columns?
  released := terminal ≠ absent
  events :=
    match terminal with
    | sizeless reason => [.terminalSizeless reason]
    | _ => []

end Device

end Bracketed
