import Bracketed.Text.Basic

/-!
# Widths

A width is a number of columns. One that was asked for without a number is
vacant: it stands where a width stands, and is written as an empty list, but no
forest can be laid out within it.
-/

namespace Bracketed

inductive Width
  | columns (count : Int)
  | vacant
deriving DecidableEq, Repr

def Width.written : Width → String
  | columns count => toString count
  | vacant => "[]"

/-- The width of a line when nothing tells another. -/
def defaultWidth : Int := 80

/-! ## Numerals

A numeral is a whole number written as text: padding at either end, at most one
sign, then decimal digits of any script with single underscores between them.
Padding is any blank but the control characters that part records. Leading zeros
count as digits, and a numeral may have only so many of them. -/

namespace Numeral

/-- Digits beyond this count make a text no numeral. -/
def maxDigits : Nat := 4300

def isPadding (c : Char) : Bool :=
  Text.isBlank c && !Text.within [(0x1C, 0x1F)] c

/-- The text without the padding at either end. -/
def trim (text : Text) : Text :=
  ((text.dropWhile isPadding).reverse.dropWhile isPadding).reverse

/-- The digits of an unsigned numeral, most significant first. -/
def digits? : Text → Option (List Nat)
  | [] => none
  | c :: rest =>
      match Text.digit? c with
      | none => none
      | some digit =>
          match rest with
          | [] => some [digit]
          | '_' :: more => (digits? more).map (digit :: ·)
          | next :: more => (digits? (next :: more)).map (digit :: ·)

/-- The number that digits write in base ten. -/
def value (digits : List Nat) : Nat :=
  digits.foldl (fun total digit => 10 * total + digit) 0

def unsigned? (text : Text) : Option Nat :=
  match digits? text with
  | none => none
  | some digits => if digits.length ≤ maxDigits then some (value digits) else none

/-- The whole number that a text writes. -/
def read? (text : Text) : Option Int :=
  match trim text with
  | '-' :: body => (unsigned? body).map fun n => -(n : Int)
  | '+' :: body => (unsigned? body).map fun n => (n : Int)
  | body => (unsigned? body).map fun n => (n : Int)

end Numeral

end Bracketed
