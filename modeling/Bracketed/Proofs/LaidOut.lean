import Bracketed.Format

/-!
# Laid out forests

A layout is a node with the lines it is broken into, and laying out a node does not
change it.  A text is laid out from the forest that it is read as, and comes back as it
is if there is none.
-/

namespace Bracketed

namespace Layout

mutual

/-- The node that a layout writes. -/
def node : Layout → Node
  | flat node => node
  | split lead bracket children comma => .group lead bracket (nodes children) comma

def nodes : List Layout → List Node
  | [] => []
  | layout :: rest => layout.node :: nodes rest

end

end Layout

namespace Node

mutual

/-- Laying out a node does not change it. -/
theorem node_layout (width level : Int) (column : Nat) (node : Node) :
    (node.layout width level column).node = node := by
  cases node with
  | leaf lead comma => rw [layout, Layout.node]
  | group lead bracket children comma =>
      rw [layout]
      split
      · rw [Layout.node]
      · rw [Layout.node, nodes_layoutList]

theorem nodes_layoutList (width level : Int) (nodes : List Node) :
    Layout.nodes (layoutList width level nodes) = nodes := by
  cases nodes with
  | nil => rw [layoutList, Layout.nodes]
  | cons node rest => rw [layoutList, Layout.nodes, node_layout, nodes_layoutList]

end

end Node

namespace Forest

/-- The layouts of nodes that are written back to back. -/
def layouts (width level : Int) : Nat → Forest → List Layout
  | _, [] => []
  | column, node :: rest =>
      let layout := node.layout width level column
      layout :: layouts width level ((layout.segments level).foldl Segment.columnAfter column) rest

theorem nodes_layouts (width level : Int) (column : Nat) (forest : Forest) :
    Layout.nodes (layouts width level column forest) = forest := by
  induction forest generalizing column with
  | nil => rfl
  | cons node rest ih => rw [layouts, Layout.nodes, ih, Node.node_layout]

theorem segments_eq_flatMap (width level : Int) (column : Nat) (forest : Forest) :
    forest.segments width level column =
      (forest.layouts width level column).flatMap (Layout.segments level) := by
  induction forest generalizing column with
  | nil => rfl
  | cons node rest ih => rw [segments, layouts, List.flatMap_cons, ih]

end Forest

theorem forest_examine {limit : Nat} {text : Text} {reading : Reading Forest}
    (h : Forest.read limit text = .ok reading) : (examine limit text).forest = reading.forest := by
  unfold examine
  rw [h]
  cases hforest : reading.forest <;> simp [hforest]

/-- A text is laid out from its forest, if it has one. -/
theorem examine_cases (limit : Nat) (text : Text) :
    (examine limit text).forest = [] ∨
      ∃ reading, Forest.read limit text = .ok reading ∧ reading.forest ≠ [] ∧
        (examine limit text).forest = reading.forest := by
  cases hread : Forest.read limit text with
  | error fault =>
      left
      unfold examine
      rw [hread]
  | ok reading =>
      have hforest := forest_examine hread
      by_cases hnil : reading.forest = []
      · exact .inl (hforest.trans hnil)
      · exact .inr ⟨reading, rfl, hnil, hforest⟩

theorem format_of_forest_nil {limit : Nat} {text : Text} (h : (examine limit text).forest = [])
    (width : Int) :
    (format limit text width).text = text := by
  simp [format, h]

theorem format_of_forest_ne_nil {limit : Nat} {text : Text}
    (h : (examine limit text).forest ≠ []) (width : Int) :
    (format limit text width).text = (examine limit text).forest.render width := by
  unfold format
  dsimp only
  split
  · next hnil => exact absurd hnil h
  · rfl

end Bracketed
