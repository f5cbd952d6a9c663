import Bracketed.Proofs.Columns

/-!
# Drawing

A forest can be drawn without a layout: node by node onto one output, where each group reads
the column off the output before it is written and is split if it does not fit there.  That is
the output of the layout, for behind every line break the column is the indentation again.  So
nothing that was written before a group that is split has a bearing on its text.
-/

namespace Bracketed

namespace Output

/-- The output with a line break and the blanks of a level. -/
def breakLine (level : Int) (output : Output) : Output :=
  output.newline.write (List.replicate (Layout.indentation level) ' ')

mutual

/-- A node written onto the output, on one line if it fits behind the column reached. -/
def draw (width level : Int) (output : Output) (node : Node) : Output :=
  match node with
  | .leaf lead comma => (output.write (Layout.leadAt level lead)).write (Node.suffixText comma)
  | .group lead bracket children comma =>
      let begun := output.write (Layout.leadAt level lead)
      if (Node.group lead bracket children comma).Fits (width - output.column) then
        begun.write (Node.group lead bracket children comma).body
      else
        let inside := (begun.write [bracket.opening]).drawList width (level + 1) children
        ((inside.breakLine level).write [bracket.closing]).write (Node.suffixText comma)

/-- Nodes written onto the output, each on a line of its own. -/
def drawList (width level : Int) (output : Output) (nodes : List Node) : Output :=
  match nodes with
  | [] => output
  | node :: rest => ((output.breakLine level).draw width level node).drawList width level rest

end

theorem breakLine_eq_emit (level : Int) (output : Output) :
    output.breakLine level = output.emit [.line (Layout.indentation level)] := by
  simp [breakLine, newline, write, emit, Segment.written, Segment.columnAfter]

theorem write_append (output : Output) (first second : Text) :
    (output.write first).write second = output.write (first ++ second) := by
  simp [write, emit, Segment.written, Segment.columnAfter, Nat.add_assoc]

mutual

/-- Drawing reads the same columns off the output as the layout counts. -/
theorem draw_eq_emit (width level : Int) (output : Output) (node : Node) :
    output.draw width level node =
      output.emit ((node.layout width level output.column).segments level) := by
  cases node with
  | leaf lead comma =>
      rw [draw, Node.layout, Layout.segments, write, write, ← emit_append]
      rfl
  | group lead bracket children comma =>
      rw [draw, Node.layout]
      split
      · rw [Layout.segments, write, write, ← emit_append]
        rfl
      · rw [Layout.segments]
        dsimp only
        rw [drawList_eq_emit, breakLine_eq_emit, write_append, write, write, write, ← emit_append,
          ← emit_append, ← emit_append, ← emit_append]
        rfl

theorem drawList_eq_emit (width level : Int) (output : Output) (nodes : List Node) :
    output.drawList width level nodes =
      output.emit (Layout.segmentsList level (Node.layoutList width level nodes)) := by
  cases nodes with
  | nil => exact (emit_nil output).symm
  | cons node rest =>
      rw [drawList, drawList_eq_emit, draw_eq_emit, breakLine_eq_emit, ← emit_append,
        ← emit_append, Node.layoutList, Layout.segmentsList]
      rfl

end

theorem render_singleton (width level : Int) (output : Output) (node : Node) :
    output.render width level [node] = output.draw width level node := by
  rw [draw_eq_emit, render, Forest.segments, Forest.segments, List.append_nil]

end Output

namespace Layout

/-- The column behind a split group is the one behind its closing bracket. -/
theorem foldl_columnAfter_split (level : Int) (lead : Text) (bracket : Bracket)
    (children : List Layout) (comma : Bool) (column : Nat) :
    ((split lead bracket children comma).segments level).foldl Segment.columnAfter column =
      indentation level + (bracket.closing :: Node.suffixText comma).length := by
  simp [segments, Segment.columnAfter]

theorem lastLine_split (level : Int) (before lead : Text) (bracket : Bracket)
    (children : List Layout) (comma : Bool) :
    (before ++ ((split lead bracket children comma).segments level).flatMap
        Segment.written).lastLine =
      List.replicate (indentation level) ' ' ++ bracket.closing :: Node.suffixText comma := by
  have hclosing := lineFeed_not_mem_closing level.toNat bracket comma
  have hend : [Segment.line (indentation level),
      .text (bracket.closing :: Node.suffixText comma)].flatMap Segment.written =
        '\n' :: (List.replicate (indentation level) ' ' ++
          bracket.closing :: Node.suffixText comma) := by
    simp [Segment.written]
  rw [segments, ← List.cons_append, ← List.cons_append, List.flatMap_append, hend,
    ← List.append_assoc]
  exact Text.lastLine_append_lineFeed hclosing _

end Layout

namespace Output

variable {width level : Int} {lead : Text} {bracket : Bracket} {children : List Node}
  {comma : Bool} {output : Output}

theorem render_group (h : ¬ (Node.group lead bracket children comma).Fits (width - output.column)) :
    output.render width level [.group lead bracket children comma] =
      output.emit ((Layout.split lead bracket (Node.layoutList width (level + 1) children)
        comma).segments level) := by
  rw [render_singleton, draw_eq_emit, Node.layout, if_neg h]

/-- Behind a split group the column is the length of the last line again. -/
theorem column_emit_split (level : Int) (output : Output) (lead : Text) (bracket : Bracket)
    (children : List Layout) (comma : Bool) :
    (output.emit ((Layout.split lead bracket children comma).segments level)).column =
      (output.emit ((Layout.split lead bracket children comma).segments
        level)).text.lastLine.length := by
  rw [emit, Layout.foldl_columnAfter_split, Layout.lastLine_split, List.length_append,
    List.length_replicate]

/-- Rendering a node is drawing it.  A group that does not fit is written alike behind whatever
was written before: the same text, and the same column behind it, which is the length of the
last line. -/
theorem render_of_not_fits {node : Node} {first second : Output}
    (hgroup : node.isLeaf = false) (hfirst : ¬ node.Fits (width - first.column))
    (hsecond : ¬ node.Fits (width - second.column)) :
    (∀ output : Output, output.render width level [node] = output.draw width level node) ∧
      (∃ appended, (first.render width level [node]).text = first.text ++ appended ∧
        (second.render width level [node]).text = second.text ++ appended) ∧
      (first.render width level [node]).column = (second.render width level [node]).column ∧
      (first.render width level [node]).column =
        (first.render width level [node]).text.lastLine.length ∧
      (second.render width level [node]).column =
        (second.render width level [node]).text.lastLine.length := by
  cases node with
  | leaf lead comma => cases hgroup
  | group lead bracket children comma =>
      constructor
      · intro output
        exact output.render_singleton width level _
      · rw [render_group hfirst, render_group hsecond]
        refine ⟨⟨_, rfl, rfl⟩, ?_, column_emit_split level first _ _ _ _,
          column_emit_split level second _ _ _ _⟩
        exact (Layout.foldl_columnAfter_split level _ _ _ _ first.column).trans
          (Layout.foldl_columnAfter_split level _ _ _ _ second.column).symm

/-- Behind two characters of a first line and behind five of a second one: the group is split,
and its child fits on one line, both times. -/
theorem render_of_not_fits_child :
    let node : Node :=
      .group ['f'] .round [.group [' ', 'g'] .round [.leaf ['b'] false] false] false
    let appended : Text :=
      ['f', '(', '\n', ' ', ' ', ' ', ' ', 'g', '(', 'b', ')', '\n', ')']
    let first : Output := Output.empty.write ['a', '-']
    let second : Output := (Output.empty.write ['a']).newline.write ['b', 'c', 'd', 'e', 'f']
    first.render 9 0 [node] = ⟨first.text ++ appended, 1⟩ ∧
      (second.render 9 0 [node]).text = second.text ++ appended ∧
      (second.render 9 0 [node]).column = 1 := by
  intro node appended first second
  have hgroup : node.isLeaf = false := rfl
  have hfirst : ¬ node.Fits (9 - first.column) := by decide
  have hsecond : ¬ node.Fits (9 - second.column) := by decide
  have hvalue : first.render 9 0 [node] = ⟨first.text ++ appended, 1⟩ := by decide
  obtain ⟨-, ⟨text, htext, htext'⟩, hcolumn, -⟩ :=
    @render_of_not_fits 9 0 node first second hgroup hfirst hsecond
  rw [hvalue] at htext hcolumn
  refine ⟨hvalue, ?_, hcolumn.symm⟩
  rw [htext', List.append_cancel_left htext]

end Output

end Bracketed
