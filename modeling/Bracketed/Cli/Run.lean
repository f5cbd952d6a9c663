import Bracketed.Cli.Files
import Bracketed.Cli.Options

/-!
# Runs

A run reads the options, finds the width, and works on the files, or on the
standard input if there are none. What it finds around it is a setting, what it
leaves behind a report.
-/

namespace Bracketed.Cli

/-- What a run finds around it. -/
structure Setting where
  read : Text → Except OpenFault (List UInt8)
  input : Input
  /-- The value of the width variable, if it is set. -/
  environment : Option Text
  /-- The columns of the terminal, if there is one. -/
  terminal : Option Int
  /-- The trouble that lies ahead of the output. -/
  trouble : Trouble
  /-- How deep groups may nest. -/
  limit : Nat
  console : Console
  /-- What is recorded of the way to a crash. -/
  traceback : Crash → Text

/-- What a run leaves behind. -/
structure Report where
  status : Nat
  output : Text
  diagnostics : Text
  input : Input
deriving DecidableEq, Repr

def usage : Text :=
  "usage: pp [-h] [-w N] [--verbose] [-v] [FILE ...]\n".toList

def help : Text :=
  usage ++ ("\n" ++
    "Pretty-print toString-style paren trees, one input line at a time.\n" ++
    "\n" ++
    "positional arguments:\n" ++
    "  FILE             Files to read (default: stdin, '-' also means stdin)\n" ++
    "\n" ++
    "options:\n" ++
    "  -h, --help       show this help message and exit\n" ++
    "  -w N, --width N  Column width\n" ++
    "  --verbose        Log debug information to stderr\n" ++
    "  -v, --version    Display version information\n" ++
    "\n" ++
    s!"Width defaults to ${Event.widthVariable}, then the terminal, then 80 columns.\n").toList

/-- What is announced of the version, in markup. -/
def version : Text :=
  "pp (parenpp) [bold cyan]0.1.0[/bold cyan]".toList

/-- The status and the last notes of a run with an early end. A crash is told and
recorded, anything else passes in silence. -/
def Ending.conclude (traceback : Crash → Text) : Ending → Nat × List Note
  | brokenPipe => (0, [])
  | interrupt => (130, [])
  | crash cause => (1, [.message (.fatal cause.message), .report (.traced (traceback cause))])

/-- The status and last notes of a run whose files ended with a verdict, given
the fault of the last flush. A stopped run does not come to that flush. -/
def conclude (traceback : Crash → Text) (verdict : Verdict) (flushFault : Option WriteFault) :
    Nat × List Note :=
  match verdict, flushFault with
  | .stopped ending, _ => ending.conclude traceback
  | .done, none => (0, [])
  | .failed, none => (1, [])
  | _, some fault => fault.ending.conclude traceback

/-- The diagnostics of some notes, one after the other. -/
def diagnosticsOf (console : Console) (verbose : Bool) (notes : List Note) : Text :=
  (notes.filter (Note.isShown verbose)).flatMap (Note.text console)

/-- The report of a run that only tells something about itself. What it tells is
lost if it cannot be written. -/
def tell (text : Text) (setting : Setting) : Report :=
  match (Sink.empty setting.trouble).write text with
  | .ok sink => ⟨0, sink.text, [], setting.input⟩
  | .error _ => ⟨0, [], [], setting.input⟩

/-- A run whose options have been read. -/
def runWith (options : Options) (setting : Setting) : Report :=
  if options.version then tell (setting.console.announce version) setting
  else
    let choice := Width.choose options.width setting.environment setting.terminal
    let paths := if options.files.isEmpty then [standardInput] else options.files
    let outcome := processFiles setting.limit choice.width setting.read paths setting.input
      (.empty setting.trouble)
    let (status, last) := conclude setting.traceback outcome.verdict outcome.sink.flushFault
    let notes := choice.events.map Note.report ++ outcome.notes ++ last
    ⟨status, outcome.sink.text, diagnosticsOf setting.console options.verbose notes,
      outcome.input⟩

def run (words : List Text) (setting : Setting) : Report :=
  match Options.read words with
  | .ok options => runWith options setting
  | .error .help => tell help setting
  | .error (.usage error) =>
      ⟨2, [], usage ++ s!"pp: error: {error.message}\n".toList, setting.input⟩

end Bracketed.Cli
