import Bracketed.Cli.Console
import Bracketed.Cli.Folder
import Bracketed.Cli.Input
import Bracketed.Cli.Sink
import Bracketed.Format

/-!
# Files

The lines of each file are formatted and written in turn, with a hyphen for the
standard input. A file that cannot be read, or whose output the system refuses,
is reported, and the work goes on with the next file. Anything else, such as a
broken pipe or a line that cannot be laid out, ends the work; whoever started it
decides what is said then.
-/

namespace Bracketed.Cli

/-! ## Lines -/

/-- Why the lines of a file come no further. -/
inductive Obstacle
  | layout (fault : Fault)
  | write (fault : WriteFault)
deriving DecidableEq, Repr

/-- How far the lines of a file have come: the number of lines written, the
reports, the sink, the lines not yet taken, and what stopped it all. -/
structure Progress where
  count : Nat
  events : List Event
  sink : Sink
  unread : List Text
  obstacle : Option Obstacle
deriving DecidableEq, Repr

/-- Writes a formatted line, and a line feed in a write of its own. Also tells how
far the sink comes if a write fails. -/
def writeLine (sink : Sink) (text : Text) : Sink × Option WriteFault :=
  match sink.write text with
  | .error fault => (sink, some fault)
  | .ok next =>
      match next.write ['\n'] with
      | .error fault => (next, some fault)
      | .ok last => (last, none)

/-- Formats and writes lines up to the first obstacle. -/
def processLines (limit : Nat) (width : Width) (sink : Sink) : List Text → Progress
  | [] => ⟨0, [], sink, [], none⟩
  | line :: rest =>
      match formatWithin limit line.chomp width with
      | .error fault => ⟨0, [], sink, rest, some (.layout fault)⟩
      | .ok formatted =>
          match writeLine sink formatted.text with
          | (stuck, some fault) => ⟨0, formatted.events, stuck, rest, some (.write fault)⟩
          | (next, none) =>
              let progress := processLines limit width next rest
              { progress with
                count := progress.count + 1
                events := formatted.events ++ progress.events }

/-! ## Endings -/

/-- What is beyond the work on a single file. -/
inductive Crash
  /-- A path that holds a null. -/
  | nullPath
  /-- A standard input that is closed. -/
  | closedInput
  /-- A line that cannot be laid out. -/
  | layout (fault : Fault)
  /-- A refusal of the system that no file is to blame for. -/
  | system (number : Option Nat) (reason : Text)
  | other (text : Text)
deriving DecidableEq, Repr

def Crash.message : Crash → Text
  | nullPath => "embedded null byte".toList
  | closedInput => "I/O operation on closed file".toList
  | layout fault => fault.message.toList
  | system number reason => WriteFault.fullReason number reason
  | other text => text

/-- How the work on the files comes to an early end. -/
inductive Ending
  | brokenPipe
  | interrupt
  | crash (cause : Crash)
deriving DecidableEq, Repr

/-- The end that a fault brings about, unless it is put down to a file. -/
def WriteFault.ending : WriteFault → Ending
  | brokenPipe => .brokenPipe
  | interrupt => .interrupt
  | system number reason => .crash (.system number reason)
  | other text => .crash (.other text)

/-! ## Files -/

/-- A piece of diagnostics. -/
inductive Note
  | report (event : Event)
  | message (told : Message)
deriving DecidableEq, Repr

namespace Note

/-- Reports are recorded line by line; messages are left to the console. -/
def text (console : Console) : Note → Text
  | report event => event.message.toList ++ ['\n']
  | message told => console.write told

/-- Events below a warning are shown only on demand; messages always are. -/
def isShown (verbose : Bool) : Note → Bool
  | report event => verbose || event.isUrgent
  | message _ => true

end Note

/-- How the work on a file ended. -/
inductive Verdict
  | done
  /-- The file failed, and the run goes on. -/
  | failed
  /-- The run ends here. -/
  | stopped (ending : Ending)
deriving DecidableEq, Repr

/-- What the work on a file, or on several, led to. -/
structure Outcome where
  notes : List Note
  input : Input
  sink : Sink
  verdict : Verdict
deriving DecidableEq, Repr

/-- The word that stands for the standard input. -/
def standardInput : Text := ['-']

/-- The outcome of a file whose lines have come so far, with the input left behind. -/
def Outcome.ofProgress (path : Text) (width : Width) (input : Input) (progress : Progress) :
    Outcome :=
  let notes := progress.events.map Note.report
  match progress.obstacle with
  | none =>
      ⟨notes ++ [.report (.fileDone path progress.count width)], input, progress.sink, .done⟩
  | some (.layout fault) =>
      ⟨notes, input, progress.sink, .stopped (.crash (.layout fault))⟩
  | some (.write (.system _ reason)) =>
      ⟨notes ++ [.message (.failure path reason)], input, progress.sink, .failed⟩
  | some (.write fault) => ⟨notes, input, progress.sink, .stopped fault.ending⟩

/-- The lines of the standard input, and the input left behind, if it is open. Bytes
are read through a layer, which lets go of them whatever the lines come to. -/
def processInput (limit : Nat) (width : Width) (input : Input) (sink : Sink) :
    Option (Progress × Input) :=
  match input.content with
  | .bytes _ => do
      let layer ← Layer.over? input
      let progress := processLines limit width sink layer.input.lines
      return (progress, (layer.rest progress.unread).detach.dispose)
  | .lines lines =>
      if input.isOpen then
        let progress := processLines limit width sink lines
        some (progress, input.rest progress.unread)
      else none

/-- Works on one file, or on the standard input. -/
def processFile (limit : Nat) (width : Width) (read : Text → Except OpenFault (List UInt8))
    (path : Text) (input : Input) (sink : Sink) : Outcome :=
  if path = standardInput then
    match processInput limit width input sink with
    | none => ⟨[], input, sink, .stopped (.crash .closedInput)⟩
    | some (progress, rest) => .ofProgress path width rest progress
  else if '\x00' ∈ path then ⟨[], input, sink, .stopped (.crash .nullPath)⟩
  else
    match read path with
    | .error fault => ⟨[.message (.failure path fault.reason)], input, sink, .failed⟩
    | .ok bytes =>
        .ofProgress path width input (processLines limit width sink (linesOfBytes bytes))

/-- The verdict on several files, given that on the first of them. -/
def Verdict.and (first later : Verdict) : Verdict :=
  match first, later with
  | stopped ending, _ => .stopped ending
  | _, stopped ending => .stopped ending
  | done, done => .done
  | _, _ => .failed

/-- Works on one file after the other. -/
def processFiles (limit : Nat) (width : Width) (read : Text → Except OpenFault (List UInt8)) :
    List Text → Input → Sink → Outcome
  | [], input, sink => ⟨[], input, sink, .done⟩
  | path :: rest, input, sink =>
      let first := processFile limit width read path input sink
      match first.verdict with
      | .stopped _ => first
      | _ =>
          let later := processFiles limit width read rest first.input first.sink
          { later with
            notes := first.notes ++ later.notes
            verdict := first.verdict.and later.verdict }

end Bracketed.Cli
