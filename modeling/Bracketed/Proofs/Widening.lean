import Mathlib.Data.List.Basic
import Bracketed.Proofs.Placement
import Bracketed.Proofs.Room
import Bracketed.Proofs.Seam

/-!
# Widening

Within a greater width a node is laid out more coarsely: some of the split groups are written
on one line, and no other group is split.  For where a child of a split group begins depends on
its level alone.  A root that follows another one begins where that one ends, so of several
roots this does not hold.
-/

namespace Bracketed

/-! ## Coarser layouts -/

namespace Layout

/-- The group that a layout splits at the end of a path of children, if it does. -/
def splitAt? : List Nat → Layout → Option Node
  | [], flat _ => none
  | [], split lead bracket children comma => some (.group lead bracket (nodes children) comma)
  | index :: path, layout => layout.children[index]?.bind (splitAt? path)

mutual

/-- The first layout is the second with some of the split groups written on one line. -/
inductive Coarser : Layout → Layout → Prop
  | joined (layout : Layout) : Coarser (.flat layout.node) layout
  | split {coarse fine : List Layout} (lead : Text) (bracket : Bracket) (comma : Bool)
      (children : CoarserList coarse fine) :
      Coarser (.split lead bracket coarse comma) (.split lead bracket fine comma)

inductive CoarserList : List Layout → List Layout → Prop
  | nil : CoarserList [] []
  | cons {first second : Layout} {coarse fine : List Layout} (head : Coarser first second)
      (rest : CoarserList coarse fine) : CoarserList (first :: coarse) (second :: fine)

end

mutual

theorem Coarser.node_eq {coarse fine : Layout} (h : Coarser coarse fine) :
    coarse.node = fine.node := by
  cases h with
  | joined => rw [node]
  | split lead bracket comma children => rw [node, node, children.nodes_eq]

theorem CoarserList.nodes_eq {coarse fine : List Layout} (h : CoarserList coarse fine) :
    nodes coarse = nodes fine := by
  cases h with
  | nil => rfl
  | cons head rest => rw [nodes, nodes, head.node_eq, rest.nodes_eq]

end

theorem CoarserList.exists_getElem? {coarse fine : List Layout} {layout : Layout} {index : Nat}
    (h : CoarserList coarse fine) (hlayout : coarse[index]? = some layout) :
    ∃ other, fine[index]? = some other ∧ layout.Coarser other := by
  induction index generalizing coarse fine with
  | zero =>
      cases h with
      | nil => cases hlayout
      | cons head rest =>
          cases hlayout
          exact ⟨_, rfl, head⟩
  | succ index ih =>
      cases h with
      | nil => cases hlayout
      | cons head rest => exact ih rest hlayout

/-- What a coarser layout splits, the finer one splits too. -/
theorem Coarser.splitAt?_eq {coarse fine : Layout} {path : List Nat} {group : Node}
    (h : Coarser coarse fine) (hgroup : coarse.splitAt? path = some group) :
    fine.splitAt? path = some group := by
  induction path generalizing coarse fine with
  | nil =>
      cases h with
      | joined => cases hgroup
      | split lead bracket comma children =>
          rw [splitAt?, children.nodes_eq] at hgroup
          exact hgroup
  | cons index path ih =>
      cases h with
      | joined => cases hgroup
      | split lead bracket comma children =>
          obtain ⟨layout, hlayout, hgroup⟩ := Option.bind_eq_some_iff.1 hgroup
          obtain ⟨other, hother, hcoarser⟩ := children.exists_getElem? hlayout
          exact Option.bind_eq_some_iff.2 ⟨other, hother, ih hcoarser hgroup⟩

theorem countP_bodyStrokes_flat (depth : Nat) (node : Node) :
    ((flat node).bodyStrokes depth).countP Stroke.broken = 0 := by
  simp [bodyStrokes, List.countP_map]

mutual

theorem Coarser.countP_bodyStrokes_le {coarse fine : Layout} (h : Coarser coarse fine)
    (depth : Nat) :
    (coarse.bodyStrokes depth).countP Stroke.broken ≤
      (fine.bodyStrokes depth).countP Stroke.broken := by
  cases h with
  | joined =>
      rw [countP_bodyStrokes_flat]
      exact Nat.zero_le _
  | split lead bracket comma children =>
      have hchildren := children.countP_strokesList_le (depth + 1)
      simp only [bodyStrokes, Stroke.countP_cons_joined, List.countP_append]
      omega

/-- A coarser layout has no more line breaks. -/
theorem CoarserList.countP_strokesList_le {coarse fine : List Layout}
    (h : CoarserList coarse fine) (depth : Nat) :
    (strokesList depth true coarse).countP Stroke.broken ≤
      (strokesList depth true fine).countP Stroke.broken := by
  cases h with
  | nil => exact Nat.le_refl _
  | cons head rest =>
      have hhead := head.countP_bodyStrokes_le depth
      have hrest := rest.countP_strokesList_le depth
      simp only [strokesList, Stroke.countP_cons_broken, List.countP_append]
      omega

end

end Layout

namespace Node

variable {narrow wide : Int}

theorem Fits.mono {node : Node} {budget larger : Int} (h : budget ≤ larger)
    (hfits : node.Fits budget) : node.Fits larger :=
  fits_iff.2 (Int.le_trans (fits_iff.1 hfits) h)

/-- A node that fits is written on one line. -/
theorem layout_of_fits {node : Node} {width level : Int} {column : Nat}
    (h : node.Fits (width - column)) : node.layout width level column = .flat node := by
  cases node with
  | leaf lead comma => rw [layout]
  | group lead bracket children comma => rw [layout, if_pos h]

mutual

/-- A wider layout is coarser, wherever the node begins. -/
theorem coarser_layout (h : narrow ≤ wide) (level : Int) (column : Nat) (node : Node) :
    (node.layout wide level column).Coarser (node.layout narrow level column) := by
  cases node with
  | leaf lead comma =>
      rw [layout, layout]
      exact .joined (.flat (leaf lead comma))
  | group lead bracket children comma =>
      by_cases hwide : (group lead bracket children comma).Fits (wide - column)
      · have hjoined := Layout.Coarser.joined
          ((group lead bracket children comma).layout narrow level column)
        rw [node_layout] at hjoined
        rw [layout_of_fits hwide]
        exact hjoined
      · have hnarrow : ¬ (group lead bracket children comma).Fits (narrow - column) :=
          mt (Fits.mono (by omega)) hwide
        rw [layout, layout, if_neg hwide, if_neg hnarrow]
        exact .split lead bracket comma (coarserList_layoutList h (level + 1) children)

theorem coarserList_layoutList (h : narrow ≤ wide) (level : Int) (nodes : List Node) :
    Layout.CoarserList (layoutList wide level nodes) (layoutList narrow level nodes) := by
  cases nodes with
  | nil =>
      rw [layoutList, layoutList]
      exact .nil
  | cons node rest =>
      rw [layoutList, layoutList]
      exact .cons (coarser_layout h level _ node) (coarserList_layoutList h level rest)

end

end Node

/-! ## Line breaks -/

namespace Stroke

/-- A part without line feeds is written with one just when it has a line break before it. -/
theorem count_written {stroke : Stroke} (h : '\n' ∉ stroke.text) :
    stroke.written.count '\n' = if stroke.broken then 1 else 0 := by
  have hindented : '\n' ∉ stroke.part.indented := by
    cases hpart : stroke.part with
    | lead text =>
        rw [Place.text, hpart] at h
        exact fun hmem => h ((List.dropWhile_sublist _).mem hmem)
    | opening bracket | closing bracket | suffix comma =>
        rw [Place.text, hpart] at h
        exact h
  rw [written]
  split
  · simp [List.count_eq_zero.2 hindented, List.count_replicate]
  · exact List.count_eq_zero.2 h

theorem count_flatMap_written {strokes : List Stroke}
    (h : '\n' ∉ (strokes.map toPlace).flatMap Place.text) :
    (strokes.flatMap written).count '\n' = strokes.countP broken := by
  induction strokes with
  | nil => rfl
  | cons stroke rest ih =>
      rw [List.map_cons, List.flatMap_cons, List.mem_append, not_or] at h
      rw [List.flatMap_cons, List.count_append, count_written h.1, ih h.2, List.countP_cons,
        Nat.add_comm]

end Stroke

namespace Forest

/-- The line breaks of a forest that is laid out from the beginning of a line. -/
def breaks (width : Int) (forest : Forest) : Nat :=
  (forest.strokes width 0).countP Stroke.broken

theorem breaks_singleton (width : Int) (root : Node) :
    breaks width [root] =
      ((root.layout width 0 0).bodyStrokes 0).countP Stroke.broken := by
  simp [breaks, strokes, layouts, Layout.strokesList]

theorem render_eq_flatMap_strokes (width : Int) (forest : Forest) :
    forest.render width = (forest.strokes width 0).flatMap Stroke.written := by
  rw [strokes, ← Layout.flatMap_strokesList_top, ← segments_eq_flatMap]
  rfl

/-- On one line the strokes stand side by side. -/
theorem flatMap_text_strokes (width : Int) (forest : Forest) :
    ((forest.strokes width 0).map Stroke.toPlace).flatMap Place.text = forest.inline := by
  rw [strokes, Layout.map_strokesList, nodes_layouts, Node.flatMap_placesList]
  rfl

theorem count_render {forest : Forest} (h : '\n' ∉ forest.inline) (width : Int) :
    (forest.render width).count '\n' = forest.breaks width := by
  rw [← flatMap_text_strokes width] at h
  rw [render_eq_flatMap_strokes, Stroke.count_flatMap_written h, breaks]

/-- Without line breaks a forest is written on one line. -/
theorem render_of_breaks_eq_zero {width : Int} {forest : Forest} (h : forest.breaks width = 0) :
    forest.render width = forest.inline := by
  have hjoined := List.countP_eq_zero.1 h
  rw [render_eq_flatMap_strokes, ← flatMap_text_strokes width, List.flatMap_map]
  apply List.flatMap_congr
  intro stroke hmem
  exact if_neg (hjoined stroke hmem)

/-- Of a single root only a group is split, and only if it does not fit. -/
theorem breaks_singleton_eq_zero_iff (width : Int) (root : Node) :
    breaks width [root] = 0 ↔ root.isLeaf = true ∨ root.Fits width := by
  have hcolumn : width - (0 : Nat) = width := Int.sub_zero width
  rw [breaks_singleton]
  by_cases hfits : root.Fits width
  · have hflat : root.layout width 0 0 = .flat root := Node.layout_of_fits (hcolumn.symm ▸ hfits)
    rw [hflat]
    exact iff_of_true (Layout.countP_bodyStrokes_flat 0 root) (.inr hfits)
  · cases root with
    | leaf lead comma =>
        rw [Node.layout]
        exact iff_of_true (Layout.countP_bodyStrokes_flat 0 _) (.inl rfl)
    | group lead bracket children comma =>
        rw [Node.layout, hcolumn, if_neg hfits]
        refine iff_of_false ?_ (not_or.2 ⟨Bool.false_ne_true, hfits⟩)
        simp only [Layout.bodyStrokes, Stroke.countP_cons_joined, List.countP_append,
          Stroke.countP_cons_broken]
        omega

theorem breaks_singleton_le {narrow wide : Int} (h : narrow ≤ wide) (root : Node) :
    Forest.breaks wide [root] ≤ Forest.breaks narrow [root] := by
  rw [breaks_singleton, breaks_singleton]
  exact (Node.coarser_layout h 0 0 root).countP_bodyStrokes_le 0

/-- A second root has less room if the first one is written on one line. -/
example :
    let forest : Forest := [.group ['f'] .round [.leaf ['a', 'a', 'a', 'a', 'a', 'a'] false] false,
      .group ['g'] .round [.leaf ['b'] true, .leaf ['c'] false] false]
    (forest.render 8).count '\n' = 2 ∧ (forest.render 9).count '\n' = 3 := by
  decide +kernel

end Forest

/-- A wider layout splits no other group, at whatever level and column the node begins.  So a
text of a single root has no more line breaks within a greater width, and none once the root
fits; and if it has no line feeds, then its line breaks are all that are written. -/
theorem Node.split_of_split_wider {narrow wide : Int} (h : narrow ≤ wide) :
    (∀ (node : Node) (level : Int) (output : Output),
      (∀ width, output.render width level [node] =
        output.emit ((node.layout width level output.column).segments level)) ∧
      ∀ path group, (node.layout wide level output.column).splitAt? path = some group →
        (node.layout narrow level output.column).splitAt? path = some group) ∧
    ∀ limit text reading root, Forest.read limit text = .ok reading → reading.forest = [root] →
      Forest.breaks wide [root] ≤ Forest.breaks narrow [root] ∧
      (Forest.breaks wide [root] = 0 ↔ root.isLeaf = true ∨ root.inline.length ≤ wide) ∧
      (root.inline.length ≤ wide → (format limit text wide).text = root.inline) ∧
      ∀ width,
        (format limit text width).text = (Forest.strokes width 0 [root]).flatMap Stroke.written ∧
        ('\n' ∉ text → (format limit text width).text.count '\n' = Forest.breaks width [root]) := by
  constructor
  · intro node level output
    constructor
    · intro width
      rw [Output.render, Forest.segments, Forest.segments, List.append_nil]
    · intro path group hgroup
      exact (coarser_layout h level output.column node).splitAt?_eq hgroup
  · intro limit text reading root hread hforest
    have hformat : ∀ width, (format limit text width).text = Forest.render width [root] := by
      intro width
      have hexamined := (forest_examine hread).trans hforest
      rw [format_of_forest_ne_nil (hexamined ▸ List.cons_ne_nil _ _), hexamined]
    have hbreaks := Forest.breaks_singleton_eq_zero_iff wide root
    rw [fits_iff] at hbreaks
    refine ⟨Forest.breaks_singleton_le h root, hbreaks, ?_, ?_⟩
    · intro hlength
      rw [hformat, Forest.render_of_breaks_eq_zero (hbreaks.2 (.inr hlength)), Forest.inline,
        inlineList, inlineList, List.append_nil, inline]
    · intro width
      rw [hformat]
      refine ⟨Forest.render_eq_flatMap_strokes width [root], ?_⟩
      intro hfeed
      refine Forest.count_render ?_ width
      have hkept : Forest.inline [root] = text.kept :=
        Forest.inline_of_run ((Forest.run_eq_ok_iff hread).2 ⟨hforest, List.cons_ne_nil _ _⟩)
      have hcount := text.count_kept_le '\n'
      rw [List.count_eq_zero.2 hfeed] at hcount
      rw [hkept]
      exact List.count_eq_zero.1 (Nat.le_zero.1 hcount)

/-- Two columns more, and the inner group is written on one line. -/
theorem Node.split_of_split_wider_inner :
    let text : Text := ['f', '(', 'g', '(', 'a', ')', ',', 'b', 'b', 'b', 'b', 'b', 'b', ')']
    (8 : Int) ≤ 10 ∧ ∃ reading root, Forest.read 3 text = .ok reading ∧ reading.forest = [root] ∧
      (root.layout 8 0 0).splitAt? [] = some root ∧
      Forest.breaks 10 [root] ≤ Forest.breaks 8 [root] ∧
      (format 3 text 10).text.count '\n' = 3 ∧ (format 3 text 8).text.count '\n' = 5 := by
  intro text
  have hle : (8 : Int) ≤ 10 := by decide
  have hnesting : text.nesting < 3 := by decide +kernel
  obtain ⟨reading, hread⟩ := Forest.exists_read hnesting
  have hforest : (Forest.read 3 text).map Reading.forest =
      .ok [.group ['f'] .round [.group ['g'] .round [.leaf ['a'] false] true,
        .leaf ['b', 'b', 'b', 'b', 'b', 'b'] false] false] := rfl
  rw [hread] at hforest
  have hfeed : '\n' ∉ text := by decide
  obtain ⟨hsplit, hroot⟩ := split_of_split_wider hle
  obtain ⟨hbreaks, -, -, hwritten⟩ := hroot 3 text reading _ hread (Except.ok.inj hforest)
  refine ⟨hle, reading, _, hread, Except.ok.inj hforest, ?_, hbreaks, ?_, ?_⟩
  · exact (hsplit _ 0 Output.empty).2 [] _ (by decide +kernel)
  · rw [(hwritten 10).2 hfeed]
    decide +kernel
  · rw [(hwritten 8).2 hfeed]
    decide +kernel

end Bracketed
