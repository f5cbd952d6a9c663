import Bracketed.Text.Basic

/-!
# Consoles

Messages to the user are handed to a console in markup, in which a text that is
to be taken as it stands has to be escaped. What the console makes of the markup,
and where it breaks lines, is its own affair.
-/

namespace Bracketed.Cli

/-- A message: a label that stands out, a text that is taken as it stands, and
what follows it. -/
structure Message where
  label : Text
  text : Text
  tail : Text
deriving DecidableEq, Repr

namespace Message

/-- What is said of a file that cannot be worked on. -/
def failure (path reason : Text) : Message :=
  ⟨"Error:".toList, path, ": ".toList ++ reason⟩

/-- What is said at the end of a run that ends against its will. -/
def fatal (reason : Text) : Message :=
  ⟨"Fatal Error:".toList, reason, []⟩

/-- A message in markup, given how texts are escaped. -/
def markup (escape : Text → Text) (message : Message) : Text :=
  "[bold red]".toList ++
    (message.label ++ ("[/bold red] ".toList ++ (escape message.text ++ message.tail)))

/-- A message without markup. -/
def plain (message : Message) : Text :=
  message.label ++ ' ' :: (message.text ++ message.tail)

end Message

/-- What the command uses of a printer for markup. -/
structure Console where
  /-- The columns of a line. -/
  columns : Nat
  /-- A text in a form in which nothing of it counts as markup. -/
  escape : Text → Text
  /-- What is written for a markup on the side of the diagnostics. -/
  report : Text → Text
  /-- What is written for a markup on the side of the output. -/
  announce : Text → Text

namespace Console

def write (console : Console) (message : Message) : Text :=
  console.report (message.markup console.escape)

/-! ## A plain console -/

/-- A text with a backslash before every bracket that opens a tag. -/
def escapeTags (text : Text) : Text :=
  text.flatMap fun c => if c = '[' then ['\\', '['] else [c]

/-- What is left of a markup without its tags, read from inside or outside a tag. -/
def dropTags : Bool → Text → Text
  | _, [] => []
  | true, c :: rest => dropTags (c ≠ ']') rest
  | false, '\\' :: '[' :: rest => '[' :: dropTags false rest
  | false, '[' :: rest => dropTags true rest
  | false, c :: rest => c :: dropTags false rest

/-- A console without styles, as long as no line is too long for it: it leaves out
the tags and ends the line. -/
def unstyled (columns : Nat) : Console where
  columns
  escape := escapeTags
  report markup := dropTags false markup ++ ['\n']
  announce markup := dropTags false markup ++ ['\n']

end Console

end Bracketed.Cli
