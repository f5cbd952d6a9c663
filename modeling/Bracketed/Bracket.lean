import Bracketed.Fault

/-!
# Brackets

Structure comes from three pairs of brackets. Each kind is known by its opening
character, and a written pair names a kind only if it is exactly its two
characters.
-/

namespace Bracketed

inductive Bracket
  | round
  | square
  | curly
deriving DecidableEq, Repr

namespace Bracket

def opening : Bracket → Char
  | round => '('
  | square => '['
  | curly => '{'

def closing : Bracket → Char
  | round => ')'
  | square => ']'
  | curly => '}'

/-- The two characters of a kind side by side. -/
def pair (bracket : Bracket) : Text :=
  [bracket.opening, bracket.closing]

def all : List Bracket :=
  [round, square, curly]

/-- The opening characters of all kinds. -/
def openings : Text :=
  all.map opening

def ofOpening? (c : Char) : Option Bracket :=
  all.find? fun bracket => bracket.opening = c

/-- The kind that a text of one opening character names. -/
def ofOpening (given : Text) : Except Fault Bracket :=
  match given with
  | [c] =>
      match ofOpening? c with
      | some bracket => .ok bracket
      | none => .error (.notOpening given)
  | _ => .error (.notOpening given)

/-- The kind whose two characters are given. -/
def ofPair (given : Text) : Except Fault Bracket :=
  match all.find? fun bracket => bracket.pair = given with
  | some bracket => .ok bracket
  | none => .error (.unknownBracket given)

theorem ofOpening_opening (bracket : Bracket) :
    ofOpening [bracket.opening] = .ok bracket := by
  cases bracket <;> rfl

theorem ofPair_pair (bracket : Bracket) : ofPair bracket.pair = .ok bracket := by
  cases bracket <;> rfl

theorem mem_openings_iff {c : Char} :
    c ∈ openings ↔ ∃ bracket : Bracket, bracket.opening = c := by
  constructor
  · intro h
    obtain ⟨bracket, -, hc⟩ := List.mem_map.1 h
    exact ⟨bracket, hc⟩
  · rintro ⟨bracket, rfl⟩
    cases bracket <;> decide

end Bracket

end Bracketed
