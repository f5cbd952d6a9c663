import Bracketed.Node.Basic

/-!
# Layouts

A layout says of every group whether it is written on one line or split. A group
that fits on what is left of its line stays on it; another puts each child on a
line of its own, one level deeper, and its closing bracket on a line at its own
level. Leaves are never split. Below the top level the indentation stands in for
the blanks that a lead begins with, so these are dropped. The test for fitting
counts them all the same.
-/

namespace Bracketed

/-! ## Room on a line

The room that a node leaves of a number of columns when it is written on one
line. Nodes are counted one by one from the outside in, each with its lead, its
comma and two columns for its brackets, and the count stops at the first negative
total. A node fits when it leaves no negative room. -/

namespace Node

/-- The columns that a node takes by itself, without its children. -/
def cost : Node → Nat
  | leaf lead comma => lead.length + (suffixText comma).length
  | group lead _ _ comma => lead.length + (suffixText comma).length + 2

mutual

/-- The room left of `budget` columns, exact unless it is negative. -/
def remaining (node : Node) (budget : Int) : Int :=
  match node with
  | leaf lead comma => budget - (leaf lead comma).cost
  | group lead bracket children comma =>
      let left := budget - (group lead bracket children comma).cost
      if 0 ≤ left then remainingList children left else left

def remainingList (nodes : List Node) (budget : Int) : Int :=
  match nodes with
  | [] => budget
  | node :: rest =>
      let left := node.remaining budget
      if left < 0 then left else remainingList rest left

end

def Fits (node : Node) (budget : Int) : Prop :=
  0 ≤ node.remaining budget

instance (node : Node) (budget : Int) : Decidable (node.Fits budget) :=
  inferInstanceAs (Decidable (0 ≤ node.remaining budget))

theorem cost_leaf_eq_length (lead : Text) (comma : Bool) :
    (leaf lead comma).cost = (leaf lead comma).inline.length := by
  simp [cost, inline_leaf]

theorem cost_group_add_length (lead : Text) (bracket : Bracket) (children : List Node)
    (comma : Bool) :
    (group lead bracket children comma).cost + (inlineList children).length =
      (group lead bracket children comma).inline.length := by
  simp only [cost, inline_group, List.length_append, List.length_cons]
  omega

end Node

/-! ## Segments and output

Written output is a sequence of segments: text, and line breaks each followed by
the indentation of the next line. An output remembers its column, which counts
the characters since the last line break segment; a line feed inside a text
segment does not reset it. -/

inductive Segment
  | text (chars : Text)
  | line (indentation : Nat)
deriving DecidableEq, Repr

namespace Segment

/-- The characters of a segment. -/
def written : Segment → Text
  | text chars => chars
  | line indentation => '\n' :: List.replicate indentation ' '

/-- The column behind a segment that begins at the given column. -/
def columnAfter (column : Nat) : Segment → Nat
  | text chars => column + chars.length
  | line indentation => indentation

end Segment

/-- What has been written so far, and the column that has been reached. -/
structure Output where
  text : Text
  column : Nat
deriving DecidableEq, Repr

namespace Output

def empty : Output :=
  ⟨[], 0⟩

/-- The output followed by some segments. -/
def emit (output : Output) (segments : List Segment) : Output :=
  ⟨output.text ++ segments.flatMap Segment.written,
    segments.foldl Segment.columnAfter output.column⟩

def write (output : Output) (text : Text) : Output :=
  output.emit [.text text]

def newline (output : Output) : Output :=
  output.emit [.line 0]

theorem emit_nil (output : Output) : output.emit [] = output := by
  simp [emit]

theorem emit_append (output : Output) (first second : List Segment) :
    output.emit (first ++ second) = (output.emit first).emit second := by
  simp [emit]

end Output

/-! ## Layouts -/

inductive Layout
  /-- A node on one line. -/
  | flat (node : Node)
  /-- A group with each child on a line of its own. -/
  | split (lead : Text) (bracket : Bracket) (children : List Layout) (comma : Bool)
deriving Repr

namespace Layout

/-- Columns per level of indentation. -/
def step : Nat := 4

/-- The indentation of a level; levels below zero have none. -/
def indentation (level : Int) : Nat :=
  step * level.toNat

/-- The lead as written at a level. -/
def leadAt (level : Int) (lead : Text) : Text :=
  if level = 0 then lead else lead.trimLeft

mutual

/-- The segments that write a layout at a level. -/
def segments (level : Int) : Layout → List Segment
  | flat node => [.text (leadAt level node.lead), .text node.body]
  | split lead bracket children comma =>
      .text (leadAt level lead) :: .text [bracket.opening] ::
        (segmentsList (level + 1) children ++
          [.line (indentation level), .text (bracket.closing :: Node.suffixText comma)])

/-- The segments of layouts that each begin a line at a level. -/
def segmentsList (level : Int) : List Layout → List Segment
  | [] => []
  | layout :: rest =>
      .line (indentation level) :: (layout.segments level ++ segmentsList level rest)

end

end Layout

namespace Node

mutual

/-- The layout of a node that begins at the given column. -/
def layout (width : Int) (level : Int) (column : Nat) (node : Node) : Layout :=
  match node with
  | leaf lead comma => .flat (leaf lead comma)
  | group lead bracket children comma =>
      if (group lead bracket children comma).Fits (width - column) then
        .flat (group lead bracket children comma)
      else
        .split lead bracket (layoutList width (level + 1) children) comma

/-- The layouts of nodes that each begin a line at a level. -/
def layoutList (width : Int) (level : Int) (nodes : List Node) : List Layout :=
  match nodes with
  | [] => []
  | node :: rest =>
      node.layout width level (Layout.indentation level) :: layoutList width level rest

end

end Node

namespace Forest

/-- The segments of nodes that are written back to back at one level, each
beginning at the column where the node before it ended. -/
def segments (width : Int) (level : Int) : Nat → Forest → List Segment
  | _, [] => []
  | column, node :: rest =>
      let first := (node.layout width level column).segments level
      first ++ segments width level (first.foldl Segment.columnAfter column) rest

end Forest

namespace Output

/-- The output followed by each node on what is left of the line. -/
def renderInline (output : Output) (forest : Forest) : Output :=
  output.write forest.inline

/-- The output followed by the nodes of a forest, laid out at a level. -/
def render (width : Int) (level : Int) (output : Output) (forest : Forest) : Output :=
  output.emit (forest.segments width level output.column)

end Output

/-- The forest laid out within a width, from the beginning of a line. -/
def Forest.render (width : Int) (forest : Forest) : Text :=
  (Output.empty.render width 0 forest).text

end Bracketed
