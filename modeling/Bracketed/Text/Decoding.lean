import Bracketed.Text.Basic

/-!
# Bytes, texts and lines

Bytes are decoded to a text without ever failing, and a text is cut into lines.
-/

namespace Bracketed

/-! ## Lenient decoding of bytes

Bytes are read as UTF-8. Every maximal ill-formed part, which is a byte that
begins no character or a character cut short, is read as one replacement
character, and reading goes on with the byte after that part. The state between
two bytes is the character that has begun, if any. -/

namespace Utf8

/-- A character of several bytes that has begun: the bytes it still owes, at
least one, its value so far, and the bounds of the next byte. -/
structure Begun where
  owed : Nat
  value : Nat
  low : Nat
  high : Nat
deriving DecidableEq, Repr

def replacement : Char := '\ufffd'

/-- The first byte of a character: what it writes, and what it leaves begun. -/
def first (byte : Nat) : Text × Option Begun :=
  if byte < 0x80 then ([Char.ofNat byte], none)
  else if byte < 0xC2 then ([replacement], none)
  else if byte < 0xE0 then ([], some ⟨1, byte - 0xC0, 0x80, 0xBF⟩)
  else if byte = 0xE0 then ([], some ⟨2, 0, 0xA0, 0xBF⟩)
  else if byte = 0xED then ([], some ⟨2, 0xD, 0x80, 0x9F⟩)
  else if byte < 0xF0 then ([], some ⟨2, byte - 0xE0, 0x80, 0xBF⟩)
  else if byte = 0xF0 then ([], some ⟨3, 0, 0x90, 0xBF⟩)
  else if byte < 0xF4 then ([], some ⟨3, byte - 0xF0, 0x80, 0xBF⟩)
  else if byte = 0xF4 then ([], some ⟨3, 4, 0x80, 0x8F⟩)
  else ([replacement], none)

/-- One byte, after the character that has begun, if any. -/
def step (begun : Option Begun) (byte : Nat) : Text × Option Begun :=
  match begun with
  | none => first byte
  | some ⟨owed, value, low, high⟩ =>
      if low ≤ byte ∧ byte ≤ high then
        let value := value * 0x40 + (byte - 0x80)
        if owed ≤ 1 then ([Char.ofNat value], none)
        else ([], some ⟨owed - 1, value, 0x80, 0xBF⟩)
      else (replacement :: (first byte).1, (first byte).2)

/-- The text of some bytes after the character that has begun, if any, and the
character that they leave begun. -/
def scan (begun : Option Begun) : List UInt8 → Text × Option Begun
  | [] => ([], begun)
  | byte :: rest =>
      let first := step begun byte.toNat
      let more := scan first.2 rest
      (first.1 ++ more.1, more.2)

/-- What a character cut short by the end of the bytes is read as. -/
def finish : Option Begun → Text
  | none => []
  | some _ => [replacement]

def decode (bytes : List UInt8) : Text :=
  let scanned := scan none bytes
  scanned.1 ++ finish scanned.2

theorem scan_append (begun : Option Begun) (first second : List UInt8) :
    scan begun (first ++ second) =
      ((scan begun first).1 ++ (scan (scan begun first).2 second).1,
        (scan (scan begun first).2 second).2) := by
  induction first generalizing begun with
  | nil => rfl
  | cons byte rest ih => simp [scan, ih, List.append_assoc]

end Utf8

/-! ## Lines

A carriage return, a line feed, and the one followed by the other each end a
line, and are all written as a line feed. A text is split behind every line feed;
what is left behind the last one is a line too, unless it is empty. -/

namespace Text

/-- The text with every line end written as a line feed. -/
def foldLineEnds : Text → Text
  | [] => []
  | '\r' :: '\n' :: rest => '\n' :: foldLineEnds rest
  | '\r' :: rest => '\n' :: foldLineEnds rest
  | c :: rest => c :: foldLineEnds rest

/-- The lines of a text, each with the line feed that ends it. -/
def lines : Text → List Text
  | [] => []
  | c :: rest =>
      if c = '\n' then ['\n'] :: lines rest
      else
        match lines rest with
        | [] => [[c]]
        | line :: more => (c :: line) :: more

/-- The line without one line feed at its end. -/
def chomp (line : Text) : Text :=
  if line.getLast? = some '\n' then line.dropLast else line

theorem flatten_lines (text : Text) : (lines text).flatten = text := by
  induction text with
  | nil => rfl
  | cons c rest ih =>
      unfold lines
      split
      · next hc => simp [ih, hc]
      · split
        · next hnil =>
            rw [hnil] at ih
            simp [← ih]
        · next line more hcons =>
            rw [hcons] at ih
            simpa using ih

end Text

end Bracketed
