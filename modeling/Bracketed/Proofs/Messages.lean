import Bracketed.Cli.Console

/-!
# Messages

What a console writes for a message is not known in general: it breaks lines that are too long,
puts signs in the place of their names, and drops what it cannot show.  What is relied on is
that a message begins with its label and ends a line, and that a message in which there is
nothing to break or to replace is written as it stands.
-/

namespace Bracketed.Cli

/-- Printable ASCII, but for the bracket that opens a tag and the backslash that escapes one. -/
def isUnmarked (c : Char) : Bool :=
  0x20 ≤ c.toNat && c.toNat ≤ 0x7E && c ≠ '[' && c ≠ '\\'

/-- A text that is written as it stands.  It has one colon at most, for the name of a sign
stands between two. -/
def IsOrdinary (text : Text) : Prop :=
  text.all isUnmarked = true ∧ text.count ':' ≤ 1

instance (text : Text) : Decidable (IsOrdinary text) :=
  inferInstanceAs (Decidable (_ ∧ _))

/-- What has been written is one message: it begins with the label if that fits on a line, and
if all of it is ordinary and fits it is one line. -/
structure Console.Tells (console : Console) (message : Message) (written : Text) : Prop where
  written_eq : written = console.write message
  opens : message.label.length ≤ console.columns → '[' ∉ message.tail → ']' ∉ message.tail →
    ∃ body, written = message.label ++ body ++ ['\n']
  line : IsOrdinary (message.text ++ message.tail) → message.plain.length ≤ console.columns →
    written = message.plain ++ ['\n']

namespace Console

variable {text rest : Text}

end Console

end Bracketed.Cli
