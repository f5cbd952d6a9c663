import Mathlib.Algebra.Ring.Nat
import Bracketed.Proofs.LaidOut

/-!
# Placement

A node is written in parts: its lead, its brackets with the children between them, and
what follows it.  Laying out a forest writes the same parts in the same order as one line
does.  It only puts line breaks before some of them: before every child of a split group,
whose lead then loses the blanks that it begins with, and before the closing bracket.  A
line break is followed by four columns of indentation for every group around the node.
-/

namespace Bracketed

inductive Part
  | lead (text : Text)
  | opening (bracket : Bracket)
  | closing (bracket : Bracket)
  | suffix (comma : Bool)
deriving DecidableEq, Repr

/-- A part of a node that stands inside so many groups. -/
structure Place where
  part : Part
  depth : Nat
deriving DecidableEq, Repr

/-- A place with a line break before it or with none. -/
structure Stroke extends Place where
  broken : Bool
deriving DecidableEq, Repr

namespace Part

def text : Part → Text
  | lead text => text
  | opening bracket => [bracket.opening]
  | closing bracket => [bracket.closing]
  | suffix comma => Node.suffixText comma

/-- The part behind an indentation, which stands in for the first blanks of a lead. -/
def indented : Part → Text
  | lead text => text.trimLeft
  | opening bracket => [bracket.opening]
  | closing bracket => [bracket.closing]
  | suffix comma => Node.suffixText comma

end Part

def Place.text (place : Place) : Text :=
  place.part.text

def Stroke.written (stroke : Stroke) : Text :=
  if stroke.broken then
    '\n' :: (List.replicate (4 * stroke.depth) ' ' ++ stroke.part.indented)
  else stroke.part.text

theorem Stroke.written_broken (part : Part) (depth : Nat) :
    (Stroke.mk ⟨part, depth⟩ true).written =
      '\n' :: (List.replicate (4 * depth) ' ' ++ part.indented) :=
  if_pos rfl

theorem Stroke.written_joined (part : Part) (depth : Nat) :
    (Stroke.mk ⟨part, depth⟩ false).written = part.text :=
  if_neg Bool.false_ne_true

theorem Stroke.countP_cons_broken (place : Place) (rest : List Stroke) :
    (⟨place, true⟩ :: rest).countP broken = rest.countP broken + 1 :=
  List.countP_cons_of_pos rfl

theorem Stroke.countP_cons_joined (place : Place) (rest : List Stroke) :
    (⟨place, false⟩ :: rest).countP broken = rest.countP broken :=
  List.countP_cons_of_neg Bool.false_ne_true

/-! ## Nodes -/

namespace Node

mutual

/-- The parts of a node behind its lead, in the order in which they are written. -/
def bodyPlaces (depth : Nat) : Node → List Place
  | leaf _ comma => [⟨.suffix comma, depth⟩]
  | group _ bracket children comma =>
      ⟨.opening bracket, depth⟩ ::
        (placesList (depth + 1) children ++ [⟨.closing bracket, depth⟩, ⟨.suffix comma, depth⟩])

/-- The parts of some nodes, in the order in which they are written. -/
def placesList (depth : Nat) : List Node → List Place
  | [] => []
  | node :: rest => ⟨.lead node.lead, depth⟩ :: (node.bodyPlaces depth ++ placesList depth rest)

end

mutual

theorem flatMap_bodyPlaces (depth : Nat) (node : Node) :
    (node.bodyPlaces depth).flatMap Place.text = node.body := by
  cases node with
  | leaf lead comma => simp [bodyPlaces, Place.text, Part.text, body]
  | group lead bracket children comma =>
      have hchildren := flatMap_placesList (depth + 1) children
      simp only [bodyPlaces, body, List.flatMap_cons, List.flatMap_append, List.flatMap_nil,
        List.append_nil, hchildren]
      rfl

/-- On one line the parts stand side by side. -/
theorem flatMap_placesList (depth : Nat) (nodes : List Node) :
    (placesList depth nodes).flatMap Place.text = inlineList nodes := by
  cases nodes with
  | nil => rfl
  | cons node rest =>
      have hnode := flatMap_bodyPlaces depth node
      have hrest := flatMap_placesList depth rest
      simp only [placesList, inlineList, List.flatMap_cons, List.flatMap_append, hnode, hrest,
        List.append_assoc]
      rfl

end

end Node

/-! ## Layouts -/

namespace Layout

def children : Layout → List Layout
  | flat _ => []
  | split _ _ children _ => children

mutual

/-- The split groups of a layout, over all depths. -/
def splits : Layout → List Layout
  | flat _ => []
  | split lead bracket children comma =>
      split lead bracket children comma :: splitsList children

def splitsList : List Layout → List Layout
  | [] => []
  | layout :: rest => layout.splits ++ splitsList rest

end

mutual

/-- The strokes of a layout behind its lead. -/
def bodyStrokes (depth : Nat) : Layout → List Stroke
  | flat node => (node.bodyPlaces depth).map fun place => ⟨place, false⟩
  | split _ bracket children comma =>
      ⟨⟨.opening bracket, depth⟩, false⟩ ::
        (strokesList (depth + 1) true children ++
          [⟨⟨.closing bracket, depth⟩, true⟩, ⟨⟨.suffix comma, depth⟩, false⟩])

/-- The strokes of some layouts, all of them on lines of their own or none. -/
def strokesList (depth : Nat) (broken : Bool) : List Layout → List Stroke
  | [] => []
  | layout :: rest =>
      ⟨⟨.lead layout.node.lead, depth⟩, broken⟩ ::
        (layout.bodyStrokes depth ++ strokesList depth broken rest)

end

mutual

theorem map_bodyStrokes (depth : Nat) (layout : Layout) :
    (layout.bodyStrokes depth).map Stroke.toPlace = layout.node.bodyPlaces depth := by
  cases layout with
  | flat node =>
      rw [bodyStrokes, List.map_map]
      exact List.map_id _
  | split lead bracket children comma =>
      have hchildren := map_strokesList (depth + 1) true children
      simp [bodyStrokes, node, Node.bodyPlaces, hchildren]

/-- The strokes are the places of the nodes, each of them once and in the same order. -/
theorem map_strokesList (depth : Nat) (broken : Bool) (layouts : List Layout) :
    (strokesList depth broken layouts).map Stroke.toPlace =
      Node.placesList depth (nodes layouts) := by
  cases layouts with
  | nil => rfl
  | cons layout rest =>
      have hlayout := map_bodyStrokes depth layout
      have hrest := map_strokesList depth broken rest
      simp [strokesList, nodes, Node.placesList, hlayout, hrest]

end

mutual

theorem countP_bodyStrokes (depth : Nat) (layout : Layout) :
    (layout.bodyStrokes depth).countP Stroke.broken =
      (layout.splits.map fun layout => layout.children.length + 1).sum := by
  cases layout with
  | flat node => simp [bodyStrokes, splits, List.countP_map]
  | split lead bracket children comma =>
      have hchildren := countP_strokesList (depth + 1) true children
      simp only [bodyStrokes, splits, Layout.children, Stroke.countP_cons_joined,
        Stroke.countP_cons_broken, List.countP_append, List.countP_nil, hchildren, if_pos,
        List.map_cons, List.sum_cons]
      omega

/-- There is a line break for every child of a split group and one for its closing
bracket. -/
theorem countP_strokesList (depth : Nat) (broken : Bool) (layouts : List Layout) :
    (strokesList depth broken layouts).countP Stroke.broken =
      (if broken then layouts.length else 0) +
        ((splitsList layouts).map fun layout => layout.children.length + 1).sum := by
  cases layouts with
  | nil => simp [strokesList, splitsList]
  | cons layout rest =>
      have hlayout := countP_bodyStrokes depth layout
      have hrest := countP_strokesList depth broken rest
      cases broken with
      | false =>
          simp only [strokesList, splitsList, Stroke.countP_cons_joined, List.countP_append,
            hlayout, hrest, List.map_append, List.sum_append, if_neg Bool.false_ne_true]
          omega
      | true =>
          simp only [strokesList, splitsList, Stroke.countP_cons_broken, List.countP_append,
            hlayout, hrest, List.map_append, List.sum_append, if_pos, List.length_cons]
          omega

end

/-! ## What is written -/

theorem written_line (depth : Nat) :
    (Segment.line (indentation depth)).written = '\n' :: List.replicate (4 * depth) ' ' := by
  simp [Segment.written, indentation, step]

theorem leadAt_succ (depth : Nat) (lead : Text) :
    leadAt (depth + 1) lead = lead.trimLeft :=
  if_neg (by omega)

mutual

theorem flatMap_bodyStrokes (depth : Nat) (layout : Layout) :
    (layout.segments depth).flatMap Segment.written =
      leadAt depth layout.node.lead ++ (layout.bodyStrokes depth).flatMap Stroke.written := by
  cases layout with
  | flat node =>
      have hbody := node.flatMap_bodyPlaces depth
      simp only [segments, bodyStrokes, Layout.node, Segment.written, ← hbody, List.flatMap_map,
        List.flatMap_cons, List.flatMap_nil, List.append_nil]
      rfl
  | split lead bracket children comma =>
      have hchildren := flatMap_strokesList depth children
      have hline := written_line depth
      simp only [segments, bodyStrokes, Layout.node, Node.lead, hchildren, hline,
        List.flatMap_cons, List.flatMap_append, List.flatMap_nil, Stroke.written_joined,
        Stroke.written_broken, Part.text, Part.indented]
      simp [Segment.written]

/-- Layouts on lines of their own are written by their strokes. -/
theorem flatMap_strokesList (depth : Nat) (layouts : List Layout) :
    (segmentsList (depth + 1) layouts).flatMap Segment.written =
      (strokesList (depth + 1) true layouts).flatMap Stroke.written := by
  cases layouts with
  | nil => rfl
  | cons layout rest =>
      have hlayout := flatMap_bodyStrokes (depth + 1) layout
      have hrest := flatMap_strokesList depth rest
      have hline := written_line (depth + 1)
      rw [Int.natCast_succ] at hlayout hline
      simp only [segmentsList, strokesList, List.flatMap_cons, List.flatMap_append, hlayout, hrest,
        hline, leadAt_succ, Stroke.written_broken, Part.indented]
      simp

end

/-- Layouts side by side at the top level are written by their strokes. -/
theorem flatMap_strokesList_top (layouts : List Layout) :
    (layouts.flatMap (segments 0)).flatMap Segment.written =
      (strokesList 0 false layouts).flatMap Stroke.written := by
  induction layouts with
  | nil => rfl
  | cons layout rest ih =>
      have hlayout : (layout.segments 0).flatMap Segment.written =
          layout.node.lead ++ (layout.bodyStrokes 0).flatMap Stroke.written :=
        flatMap_bodyStrokes 0 layout
      simp only [strokesList, List.flatMap_cons, List.flatMap_append, ih, hlayout,
        Stroke.written_joined, Part.text, List.append_assoc]

end Layout

/-! ## Forests -/

namespace Forest

/-- The strokes of a forest that is laid out from a column on. -/
def strokes (width : Int) (column : Nat) (forest : Forest) : List Stroke :=
  Layout.strokesList 0 false (forest.layouts width 0 column)

end Forest

/-- Laying out a forest writes the parts of its nodes, each of them once, in the order of one
line and as they are, but for the line breaks of the split groups: one for every child, whose
lead loses its first blanks, and one for the closing bracket. -/
theorem Output.text_render_eq_strokes (width : Int) (output : Output) (forest : Forest) :
    (output.render width 0 forest).text =
        output.text ++ (forest.strokes width output.column).flatMap Stroke.written ∧
      (forest.strokes width output.column).map Stroke.toPlace = Node.placesList 0 forest ∧
      (Node.placesList 0 forest).flatMap Place.text = forest.inline ∧
      Layout.nodes (forest.layouts width 0 output.column) = forest ∧
      (forest.strokes width output.column).countP Stroke.broken =
        ((Layout.splitsList (forest.layouts width 0 output.column)).map
          fun split => split.children.length + 1).sum := by
  have hnodes := Forest.nodes_layouts width 0 output.column forest
  have hplaces := Layout.map_strokesList 0 false (forest.layouts width 0 output.column)
  have hbreaks := Layout.countP_strokesList 0 false (forest.layouts width 0 output.column)
  rw [hnodes] at hplaces
  rw [if_neg Bool.false_ne_true, Nat.zero_add] at hbreaks
  refine ⟨?_, hplaces, Node.flatMap_placesList 0 forest, hnodes, hbreaks⟩
  rw [Forest.strokes, ← Layout.flatMap_strokesList_top, ← Forest.segments_eq_flatMap]
  rfl

end Bracketed
