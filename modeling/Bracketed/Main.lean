import Bracketed.Cli.Run

/-!
# The command

The command gathers what the words ask for, runs, and writes what the run leaves
behind. The width comes from an option, from the environment, or is the default.
Messages are written without styles, and nothing is recorded of the way to a crash
but a heading.
-/

namespace Bracketed.Cli

/-- How deep groups may nest. -/
def nestingLimit : Nat := 500

/-- The columns of a console that is no terminal. -/
def consoleColumns : Nat := 80

def tracebackHeading : Text := "Traceback (most recent call last):\n".toList

/-- Reads a file to its end, or says why it cannot be read. Opening fails for its
type when a path goes on behind a file, reading when the path leads to a folder. -/
def readContent (path : Text) : IO (Except OpenFault (List UInt8)) := do
  try
    let content ← IO.FS.readBinFile (String.ofList path)
    return .ok content.toList
  catch error =>
    match error with
    | .noFileOrDirectory .. => return .error .missing
    | .inappropriateType (some _) .. => return .error .notFolder
    | .inappropriateType none .. => return .error .isFolder
    | .permissionDenied _ _ details => return .error (.other details.toList)
    | other => return .error (.other other.toString.toList)

/-- Reads the standard input to its end if one of the paths stands for it. -/
def readInput (paths : List Text) : IO Input := do
  if paths.isEmpty || paths.contains standardInput then
    let stdin ← IO.getStdin
    let mut content := ByteArray.empty
    let mut chunk ← stdin.read 65536
    while !chunk.isEmpty do
      content := content ++ chunk
      chunk ← stdin.read 65536
    return Input.ofBytes content.toList
  else
    return Input.ofBytes []

/-- Reads the files that some options name. -/
def readFiles (paths : List Text) : IO (List (Text × Except OpenFault (List UInt8))) :=
  (paths.filter fun path => path ≠ standardInput && !path.contains '\x00').mapM fun path => do
    return (path, ← readContent path)

end Bracketed.Cli

open Bracketed Bracketed.Cli

def main (words : List String) : IO UInt32 := do
  let words := words.map String.toList
  let paths ←
    match Options.read words with
    | .ok options => pure (if options.version then none else some options.files)
    | .error _ => pure none
  let contents ← (paths.map readFiles).getD (pure [])
  let input ← (paths.map readInput).getD (pure (Input.ofBytes []))
  let environment ← IO.getEnv Event.widthVariable
  let report := run words
    { read := fun path => (contents.lookup path).getD (.error .missing)
      input
      environment := environment.map String.toList
      terminal := none
      trouble := .none
      limit := nestingLimit
      console := .unstyled consoleColumns
      traceback := fun _ => tracebackHeading }
  (← IO.getStdout).putStr (String.ofList report.output)
  (← IO.getStderr).putStr (String.ofList report.diagnostics)
  return report.status.toUInt32
