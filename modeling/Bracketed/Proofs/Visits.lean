import Bracketed.Proofs.Placement

/-!
# Visits

A node that is not inside a group on one line is visited when it begins to be written.  The
visits cover a forest: every root is visited, and with a split group every child of it.  What is
written before a visit, and then its layout, is the beginning of all that is written.
-/

namespace Bracketed

/-- A node that is not inside a group on one line, when it begins to be written. -/
structure Visit where
  /-- All that is written so far. -/
  before : Text
  /-- The number of groups around the node. -/
  depth : Nat
  layout : Layout

namespace Layout

/-- A layout as written at a level. -/
def written (depth : Nat) (layout : Layout) : Text :=
  (layout.segments depth).flatMap Segment.written

/-- The lead and the opening bracket of a split group. -/
def opened (depth : Nat) (lead : Text) (bracket : Bracket) : Text :=
  leadAt depth lead ++ [bracket.opening]

/-- The closing bracket of a split group, on a line of its own. -/
def closed (depth : Nat) (bracket : Bracket) (comma : Bool) : Text :=
  '\n' :: (List.replicate (4 * depth) ' ' ++ bracket.closing :: Node.suffixText comma)

/-- Layouts on lines of their own. -/
def writtenList (depth : Nat) : List Layout → Text
  | [] => []
  | layout :: rest =>
      '\n' :: (List.replicate (4 * depth) ' ' ++ (layout.written depth ++ writtenList depth rest))

theorem written_flat (depth : Nat) (node : Node) :
    (flat node).written depth = leadAt depth node.lead ++ node.body := by
  simp [written, segments, Segment.written]

theorem flatMap_segmentsList (depth : Nat) (layouts : List Layout) :
    (segmentsList depth layouts).flatMap Segment.written = writtenList depth layouts := by
  induction layouts with
  | nil => rfl
  | cons layout rest ih =>
      rw [segmentsList, List.flatMap_cons, List.flatMap_append, written_line, ih, writtenList,
        written]
      simp

theorem written_split (depth : Nat) (lead : Text) (bracket : Bracket) (children : List Layout)
    (comma : Bool) :
    (split lead bracket children comma).written depth =
      opened depth lead bracket ++
        (writtenList (depth + 1) children ++ closed depth bracket comma) := by
  have hchildren := flatMap_segmentsList (depth + 1) children
  rw [Int.natCast_succ] at hchildren
  simp only [written, segments, opened, closed, List.flatMap_cons, List.flatMap_append, hchildren,
    written_line, List.flatMap_nil]
  simp [Segment.written]

mutual

/-- The visits of a layout that is written behind some text. -/
def visits (depth : Nat) (before : Text) (layout : Layout) : List Visit :=
  ⟨before, depth, layout⟩ ::
    match layout with
    | flat _ => []
    | split lead bracket children _ =>
        visitsList (depth + 1) (before ++ opened depth lead bracket) children

/-- The visits of layouts that each begin a line. -/
def visitsList (depth : Nat) (before : Text) : List Layout → List Visit
  | [] => []
  | layout :: rest =>
      let start := before ++ '\n' :: List.replicate (4 * depth) ' '
      layout.visits depth start ++ visitsList depth (start ++ layout.written depth) rest

end

/-- The visits of layouts that are written back to back at the top level. -/
def visitsTop (before : Text) : List Layout → List Visit
  | [] => []
  | layout :: rest => layout.visits 0 before ++ visitsTop (before ++ layout.written 0) rest

end Layout

/-- The visits of a forest that is laid out from the beginning of a line. -/
def Forest.visits (width : Int) (forest : Forest) : List Visit :=
  Layout.visitsTop [] (forest.layouts width 0 0)

/-! ## Every node is visited -/

/-- The roots are visited, and the children of every split group that is visited. -/
structure Forest.Covered (forest : Forest) (visits : List Visit) : Prop where
  roots : ∀ node ∈ forest, ∃ visit ∈ visits, visit.depth = 0 ∧ visit.layout.node = node
  children : ∀ visit ∈ visits, ∀ child ∈ visit.layout.children,
    ∃ inner ∈ visits, inner.depth = visit.depth + 1 ∧ inner.layout = child

namespace Layout

variable {visit : Visit} {child : Layout}

theorem self_mem_visits (depth : Nat) (before : Text) (layout : Layout) :
    ⟨before, depth, layout⟩ ∈ layout.visits depth before := by
  rw [visits.eq_def]
  exact List.mem_cons_self

theorem exists_visit_of_mem {layouts : List Layout} (h : child ∈ layouts) (depth : Nat)
    (before : Text) :
    ∃ inner ∈ visitsList depth before layouts, inner.depth = depth ∧ inner.layout = child := by
  induction layouts generalizing before with
  | nil => cases h
  | cons layout rest ih =>
      rw [visitsList]
      rcases List.mem_cons.1 h with rfl | hrest
      · exact ⟨_, List.mem_append_left _ (self_mem_visits depth _ child), rfl, rfl⟩
      · obtain ⟨inner, hmem, hinner⟩ := ih hrest _
        exact ⟨inner, List.mem_append_right _ hmem, hinner⟩

mutual

theorem exists_visit_child {layout : Layout} {depth : Nat} {before : Text}
    (h : visit ∈ layout.visits depth before) (hchild : child ∈ visit.layout.children) :
    ∃ inner ∈ layout.visits depth before,
      inner.depth = visit.depth + 1 ∧ inner.layout = child := by
  cases layout with
  | flat node =>
      rw [visits, List.mem_singleton] at h
      subst h
      cases hchild
  | split lead bracket children comma =>
      rw [visits, List.mem_cons] at h
      rw [visits]
      rcases h with rfl | h
      · obtain ⟨inner, hmem, hinner⟩ := exists_visit_of_mem hchild (depth + 1) _
        exact ⟨inner, List.mem_cons_of_mem _ hmem, hinner⟩
      · obtain ⟨inner, hmem, hinner⟩ := exists_visit_child_list h hchild
        exact ⟨inner, List.mem_cons_of_mem _ hmem, hinner⟩

theorem exists_visit_child_list {layouts : List Layout} {depth : Nat} {before : Text}
    (h : visit ∈ visitsList depth before layouts) (hchild : child ∈ visit.layout.children) :
    ∃ inner ∈ visitsList depth before layouts,
      inner.depth = visit.depth + 1 ∧ inner.layout = child := by
  cases layouts with
  | nil => cases h
  | cons layout rest =>
      rw [visitsList, List.mem_append] at h
      rw [visitsList]
      rcases h with h | h
      · obtain ⟨inner, hmem, hinner⟩ := exists_visit_child h hchild
        exact ⟨inner, List.mem_append_left _ hmem, hinner⟩
      · obtain ⟨inner, hmem, hinner⟩ := exists_visit_child_list h hchild
        exact ⟨inner, List.mem_append_right _ hmem, hinner⟩

end

/-- Visits at the top level cover the nodes that are laid out. -/
theorem covered_visitsTop (layouts : List Layout) (before : Text) :
    Forest.Covered (nodes layouts) (visitsTop before layouts) := by
  induction layouts generalizing before with
  | nil =>
      constructor
      · intro node hmem
        cases hmem
      · intro visit hmem
        cases hmem
  | cons layout rest ih =>
      have hrest := ih (before ++ layout.written 0)
      constructor
      · intro node hmem
        rw [visitsTop]
        rcases List.mem_cons.1 hmem with rfl | hmem
        · exact ⟨_, List.mem_append_left _ (self_mem_visits 0 before layout), rfl, rfl⟩
        · obtain ⟨visit, hvisit, hroot⟩ := hrest.roots node hmem
          exact ⟨visit, List.mem_append_right _ hvisit, hroot⟩
      · intro visit hvisit child hchild
        rw [visitsTop, List.mem_append] at hvisit
        rw [visitsTop]
        rcases hvisit with hvisit | hvisit
        · obtain ⟨inner, hmem, hinner⟩ := exists_visit_child hvisit hchild
          exact ⟨inner, List.mem_append_left _ hmem, hinner⟩
        · obtain ⟨inner, hmem, hinner⟩ := hrest.children visit hvisit child hchild
          exact ⟨inner, List.mem_append_right _ hmem, hinner⟩

end Layout

theorem Forest.covered_visits (width : Int) (forest : Forest) :
    forest.Covered (forest.visits width) := by
  have hcovered := Layout.covered_visitsTop (forest.layouts width 0 0) []
  rwa [nodes_layouts] at hcovered

/-! ## What is written so far -/

namespace Visit

def written (visit : Visit) : Text :=
  visit.layout.written visit.depth

end Visit

namespace Layout

variable {visit : Visit} {layouts : List Layout} {before : Text}

mutual

theorem visits_begins {layout : Layout} {depth : Nat} {before : Text}
    (h : visit ∈ layout.visits depth before) :
    visit.before ++ visit.written <+: before ++ layout.written depth := by
  cases layout with
  | flat node =>
      rw [visits, List.mem_singleton] at h
      subst h
      exact List.prefix_refl _
  | split lead bracket children comma =>
      rw [visits, List.mem_cons] at h
      rcases h with rfl | h
      · exact List.prefix_refl _
      · refine (visitsList_begins h).trans ?_
        simp only [written_split, ← List.append_assoc]
        exact List.prefix_append _ _

theorem visitsList_begins {layouts : List Layout} {depth : Nat} {before : Text}
    (h : visit ∈ visitsList depth before layouts) :
    visit.before ++ visit.written <+: before ++ writtenList depth layouts := by
  cases layouts with
  | nil => cases h
  | cons layout rest =>
      have hstart : before ++ writtenList depth (layout :: rest) =
          before ++ '\n' :: List.replicate (4 * depth) ' ' ++ layout.written depth ++
            writtenList depth rest := by
        simp [writtenList]
      rw [hstart]
      rw [visitsList, List.mem_append] at h
      rcases h with h | h
      · exact (visits_begins h).trans (List.prefix_append _ _)
      · exact visitsList_begins h

end

/-- What is written so far is the beginning of all that is written. -/
theorem visitsTop_begins (h : visit ∈ visitsTop before layouts) :
    visit.before ++ visit.written <+: before ++ layouts.flatMap (written 0) := by
  induction layouts generalizing before with
  | nil => cases h
  | cons layout rest ih =>
      rw [visitsTop, List.mem_append] at h
      rw [List.flatMap_cons, ← List.append_assoc]
      rcases h with h | h
      · exact (visits_begins h).trans (List.prefix_append _ _)
      · exact ih h

end Layout

theorem Forest.render_eq_flatMap (width : Int) (forest : Forest) :
    forest.render width = (forest.layouts width 0 0).flatMap (Layout.written 0) := by
  have hsegments := forest.segments_eq_flatMap width 0 0
  change [] ++ (forest.segments width 0 0).flatMap Segment.written = _
  rw [hsegments, List.nil_append, List.flatMap_assoc]
  rfl

end Bracketed
