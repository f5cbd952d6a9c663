import Bracketed.Text.Decoding

/-!
# Input

The standard input is either bytes or lines that have been decoded elsewhere.
Bytes are decoded like those of a file, by a layer that is laid over the input.
They are taken up in blocks, as many as the lines handed out need, and a block
that has been taken up is gone: lines that begin in it are not seen again. A
carriage return at the end of a block ends its line only when the next block
shows what follows.

A layer has its input in its hands until it is detached. One that goes out of use
before closes the input.
-/

namespace Bracketed.Cli

/-- The lines of a file of the given bytes. -/
def linesOfBytes (bytes : List UInt8) : List Text :=
  Text.lines (Text.foldLineEnds (Utf8.decode bytes))

/-- The number of bytes taken up at a time. -/
def blockSize : Nat := 8192

/-- The number of lines that the bytes at the beginning of an input complete. -/
def completeLines (bytes : List UInt8) : Nat :=
  let text := (Utf8.scan none bytes).1
  let settled := if text.getLast? = some '\r' then text.dropLast else text
  (Text.foldLineEnds settled).count '\n'

/-- The bytes left when so many lines have been handed out. -/
def bytesBehind (handedOut : Nat) (bytes : List UInt8) : List UInt8 :=
  let sizes := (List.range (bytes.length / blockSize + 1)).map fun n => blockSize * (n + 1)
  match sizes.find? fun size => handedOut ≤ completeLines (bytes.take size) with
  | some size => bytes.drop size
  | none => []

inductive Content
  | bytes (bytes : List UInt8)
  | lines (lines : List Text)
deriving DecidableEq, Repr

structure Input where
  content : Content
  isOpen : Bool
deriving DecidableEq, Repr

namespace Input

def ofBytes (bytes : List UInt8) : Input :=
  ⟨.bytes bytes, true⟩

/-- Decoded input, in which a line feed alone ends a line. -/
def ofText (text : Text) : Input :=
  ⟨.lines text.lines, true⟩

def lines (input : Input) : List Text :=
  match input.content with
  | .bytes bytes => linesOfBytes bytes
  | .lines lines => lines

/-- The input after its lines have been handed out, all but the last ones. -/
def rest (input : Input) (unread : List Text) : Input :=
  match input.content with
  | .lines _ => { input with content := .lines unread }
  | .bytes bytes =>
      if unread.isEmpty then { input with content := .bytes [] }
      else
        { input with
          content := .bytes (bytesBehind ((linesOfBytes bytes).length - unread.length) bytes) }

theorem lines_rest_nil (input : Input) : (input.rest []).lines = [] := by
  obtain ⟨content, isOpen⟩ := input
  cases content <;> rfl

theorem isOpen_rest (input : Input) (unread : List Text) :
    (input.rest unread).isOpen = input.isOpen := by
  unfold rest
  split
  · rfl
  · split <;> rfl

end Input

/-- A decoder over an input. -/
structure Layer where
  input : Input
  attached : Bool
deriving DecidableEq, Repr

namespace Layer

/-- A layer over an input that is open. -/
def over? (input : Input) : Option Layer :=
  if input.isOpen then some ⟨input, true⟩ else none

/-- The layer after its lines have been handed out, all but the last ones. -/
def rest (layer : Layer) (unread : List Text) : Layer :=
  { layer with input := layer.input.rest unread }

/-- The layer that has let go of its input. -/
def detach (layer : Layer) : Layer :=
  { layer with attached := false }

/-- The input once the layer is out of use. -/
def dispose (layer : Layer) : Input :=
  if layer.attached then { layer.input with isOpen := false } else layer.input

theorem dispose_detach (layer : Layer) : layer.detach.dispose = layer.input :=
  rfl

end Layer

end Bracketed.Cli
