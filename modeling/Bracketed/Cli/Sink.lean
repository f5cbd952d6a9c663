import Bracketed.Text.Basic

/-!
# Sinks

A sink takes the output text by text. It may be in trouble: from some write on
every write fails and leaves nothing behind, or the last flush fails.
-/

namespace Bracketed.Cli

/-- Why a write or a flush fails. -/
inductive WriteFault
  /-- Nobody reads the output any more. -/
  | brokenPipe
  /-- The user interrupts the work. -/
  | interrupt
  /-- The system refuses, with a reason and perhaps a number. -/
  | system (number : Option Nat) (reason : Text)
  /-- Anything else, with its text. -/
  | other (text : Text)
deriving DecidableEq, Repr

/-- A reason of the system in full, with its number in front. -/
def WriteFault.fullReason (number : Option Nat) (reason : Text) : Text :=
  match number with
  | none => reason
  | some number => s!"[Errno {number}] ".toList ++ reason

inductive Trouble
  | none
  /-- Writes fail after so many more. -/
  | write (after : Nat) (fault : WriteFault)
  | flush (fault : WriteFault)
deriving DecidableEq, Repr

/-- The texts written so far, the last one first. -/
structure Sink where
  chunks : List Text
  trouble : Trouble
deriving DecidableEq, Repr

namespace Sink

def empty (trouble : Trouble) : Sink :=
  ⟨[], trouble⟩

/-- All that has been written. -/
def text (sink : Sink) : Text :=
  sink.chunks.reverse.flatten

def write (sink : Sink) (chunk : Text) : Except WriteFault Sink :=
  match sink.trouble with
  | .write 0 fault => .error fault
  | .write (after + 1) fault => .ok ⟨chunk :: sink.chunks, .write after fault⟩
  | trouble => .ok ⟨chunk :: sink.chunks, trouble⟩

/-- The fault that the last flush meets, if any. -/
def flushFault (sink : Sink) : Option WriteFault :=
  match sink.trouble with
  | .flush fault => some fault
  | _ => Option.none

theorem text_write {sink next : Sink} {chunk : Text} (h : sink.write chunk = .ok next) :
    next.text = sink.text ++ chunk := by
  unfold write at h
  split at h
  · cases h
  · cases h
    simp [text]
  · cases h
    simp [text]

theorem write_of_no_trouble {sink : Sink} (chunk : Text) (h : sink.trouble = .none) :
    sink.write chunk = .ok ⟨chunk :: sink.chunks, .none⟩ := by
  simp [write, h]

end Sink

end Bracketed.Cli
