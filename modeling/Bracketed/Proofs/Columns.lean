import Bracketed.Proofs.Room
import Bracketed.Proofs.Visits

/-!
# Columns

A forest without line feeds is laid out by the length of the last line written so far.  A
group is written on one line just when all of it, with its untrimmed lead and its comma,
fits behind that line.  So a line that is too long ends where nothing could be done about
it: behind the opening bracket of a split group, behind a leaf, or behind the closing
bracket of a split group.
-/

namespace Bracketed

namespace Text

/-- The characters behind the last line feed. -/
def lastLine (text : Text) : Text :=
  (text.reverse.takeWhile (· ≠ '\n')).reverse

variable {first second : Text} {c : Char}

theorem lastLine_append (h : '\n' ∉ second) (first : Text) :
    (first ++ second).lastLine = first.lastLine ++ second := by
  have hsecond : ∀ c ∈ second.reverse, decide (c ≠ '\n') = true := by
    intro c hmem
    rw [decide_eq_true_eq]
    rintro rfl
    exact h (List.mem_reverse.1 hmem)
  rw [lastLine, List.reverse_append, List.takeWhile_append_of_pos hsecond, List.reverse_append,
    List.reverse_reverse, lastLine]

theorem lastLine_append_lineFeed (h : '\n' ∉ second) (first : Text) :
    (first ++ '\n' :: second).lastLine = second := by
  have hbreak := lastLine_append h (first ++ ['\n'])
  have hnil : (first ++ ['\n']).lastLine = [] := by simp [lastLine]
  rw [List.append_assoc, hnil] at hbreak
  exact hbreak

/-- Behind a line come a line feed or nothing. -/
def Breaks (rest : Text) : Prop :=
  ∀ c ∈ rest.head?, c = '\n'

theorem breaks_nil : Breaks [] := by
  intro c hc
  cases hc

theorem Breaks.eq_nil (h : second.Breaks) (hfeed : '\n' ∉ second) : second = [] := by
  cases second with
  | nil => rfl
  | cons c rest =>
      have hc : c = '\n' := h c rfl
      subst hc
      exact absurd List.mem_cons_self hfeed

/-- A line of two texts side by side ends in the first of them or in the second. -/
theorem Breaks.cut {line rest : Text} (hrest : rest.Breaks)
    (h : first ++ second = line ++ rest) :
    (∃ tail, tail.Breaks ∧ first = line ++ tail) ∨
      ∃ head, line = first ++ head ∧ second = head ++ rest := by
  rcases List.append_eq_append_iff.1 h with ⟨head, hline, hsecond⟩ | ⟨tail, hfirst, htail⟩
  · exact .inr ⟨head, hline, hsecond⟩
  · refine .inl ⟨tail, ?_, hfirst⟩
    intro c hc
    refine hrest c ?_
    rw [htail, Option.mem_def, List.head?_append, Option.mem_def.1 hc]
    rfl

/-- No line ends inside a text without line feeds. -/
theorem Breaks.eq_of_append {line rest : Text} (hrest : rest.Breaks) (hfeed : '\n' ∉ first)
    (h : first = line ++ rest) : line = first := by
  subst h
  have hnil : rest = [] := by
    apply hrest.eq_nil
    intro hmem
    exact hfeed (List.mem_append_right line hmem)
  rw [hnil, List.append_nil]

theorem Breaks.skip {line rest : Text} (hrest : rest.Breaks) (hfeed : '\n' ∉ first)
    (h : first ++ second = line ++ rest) :
    ∃ head, line = first ++ head ∧ second = head ++ rest := by
  rcases hrest.cut h with ⟨tail, htail, hfirst⟩ | hsecond
  · have hline : line = first := htail.eq_of_append hfeed hfirst
    subst hline
    exact ⟨[], (List.append_nil line).symm, List.append_cancel_left h⟩
  · exact hsecond

end Text

/-! ## Forests without line feeds -/

namespace Node

mutual

/-- The leads of a node, over all depths. -/
def leads : Node → List Text
  | leaf lead _ => [lead]
  | group lead _ children _ => lead :: leadsList children

def leadsList : List Node → List Text
  | [] => []
  | node :: rest => node.leads ++ leadsList rest

end

theorem forall_leads_leaf_iff {P : Text → Prop} {lead : Text} {comma : Bool} :
    (∀ text ∈ (leaf lead comma).leads, P text) ↔ P lead := by
  rw [leads, List.forall_mem_singleton]

theorem forall_leads_group_iff {P : Text → Prop} {lead : Text} {bracket : Bracket}
    {children : List Node} {comma : Bool} :
    (∀ text ∈ (group lead bracket children comma).leads, P text) ↔
      P lead ∧ ∀ text ∈ leadsList children, P text := by
  rw [leads, List.forall_mem_cons]

theorem forall_leadsList_cons_iff {P : Text → Prop} {node : Node} {rest : List Node} :
    (∀ text ∈ leadsList (node :: rest), P text) ↔
      (∀ text ∈ node.leads, P text) ∧ ∀ text ∈ leadsList rest, P text := by
  rw [leadsList, List.forall_mem_append]

/-- No lead holds a line feed. -/
def Unbroken (node : Node) : Prop :=
  ∀ lead ∈ node.leads, '\n' ∉ lead

end Node

/-- No lead holds a line feed. -/
def Forest.Unbroken (forest : Forest) : Prop :=
  ∀ lead ∈ Node.leadsList forest, '\n' ∉ lead

instance (forest : Forest) : Decidable forest.Unbroken :=
  List.decidableBAll _ (Node.leadsList forest)

theorem Forest.unbroken_cons_iff {node : Node} {rest : List Node} :
    Forest.Unbroken (node :: rest) ↔ node.Unbroken ∧ Forest.Unbroken rest :=
  Node.forall_leadsList_cons_iff

namespace Node

variable {lead : Text} {bracket : Bracket} {children : List Node} {comma : Bool} {node : Node}

theorem unbroken_group_iff :
    (group lead bracket children comma).Unbroken ↔
      '\n' ∉ lead ∧ Forest.Unbroken children :=
  forall_leads_group_iff

theorem Unbroken.not_mem_lead (h : node.Unbroken) : '\n' ∉ node.lead := by
  cases node with
  | leaf lead comma => exact forall_leads_leaf_iff.1 h
  | group lead bracket children comma => exact (unbroken_group_iff.1 h).1

theorem lineFeed_not_mem_suffixText (comma : Bool) : '\n' ∉ suffixText comma := by
  cases comma <;> decide

theorem lineFeed_ne_opening (bracket : Bracket) : '\n' ≠ bracket.opening := by
  cases bracket <;> decide

theorem lineFeed_ne_closing (bracket : Bracket) : '\n' ≠ bracket.closing := by
  cases bracket <;> decide

mutual

theorem Unbroken.not_mem_body {node : Node} (h : node.Unbroken) : '\n' ∉ node.body := by
  cases node with
  | leaf lead comma => exact lineFeed_not_mem_suffixText comma
  | group lead bracket children comma =>
      have hchildren := Unbroken.not_mem_inlineList (unbroken_group_iff.1 h).2
      simp [Node.body, hchildren, lineFeed_ne_opening, lineFeed_ne_closing,
        lineFeed_not_mem_suffixText]

theorem Unbroken.not_mem_inlineList {nodes : List Node} (h : Forest.Unbroken nodes) :
    '\n' ∉ Node.inlineList nodes := by
  cases nodes with
  | nil => exact List.not_mem_nil
  | cons node rest =>
      obtain ⟨hnode, hrest⟩ := Forest.unbroken_cons_iff.1 h
      simp [Node.inlineList, hnode.not_mem_lead, hnode.not_mem_body,
        Unbroken.not_mem_inlineList hrest]

end

end Node

/-! ## What is on one line -/

namespace Layout

theorem lineFeed_not_mem_leadAt {lead : Text} (h : '\n' ∉ lead) (level : Int) :
    '\n' ∉ leadAt level lead := by
  rw [leadAt]
  split
  · exact h
  · intro hmem
    exact h ((List.dropWhile_sublist _).mem hmem)

theorem lineFeed_not_mem_spaces (count : Nat) : '\n' ∉ List.replicate count ' ' := by
  intro hmem
  exact absurd (List.eq_of_mem_replicate hmem) (by decide)

theorem lineFeed_not_mem_written_flat {node : Node} (h : node.Unbroken) (depth : Nat) :
    '\n' ∉ (flat node).written depth := by
  rw [written_flat, List.mem_append, not_or]
  exact ⟨lineFeed_not_mem_leadAt h.not_mem_lead depth, h.not_mem_body⟩

theorem lineFeed_not_mem_opened {lead : Text} (h : '\n' ∉ lead) (depth : Nat)
    (bracket : Bracket) : '\n' ∉ opened depth lead bracket := by
  rw [opened, List.mem_append, List.mem_singleton, not_or]
  exact ⟨lineFeed_not_mem_leadAt h depth, Node.lineFeed_ne_opening bracket⟩

theorem lineFeed_not_mem_closing (depth : Nat) (bracket : Bracket) (comma : Bool) :
    '\n' ∉ List.replicate (4 * depth) ' ' ++ bracket.closing :: Node.suffixText comma := by
  rw [List.mem_append, List.mem_cons, not_or, not_or]
  exact ⟨lineFeed_not_mem_spaces _, Node.lineFeed_ne_closing bracket,
    Node.lineFeed_not_mem_suffixText comma⟩

theorem lineFeed_mem_written_split (depth : Nat) (lead : Text) (bracket : Bracket)
    (children : List Layout) (comma : Bool) :
    '\n' ∈ (split lead bracket children comma).written depth := by
  rw [written_split, closed]
  simp

theorem length_leadAt_le (level : Int) (lead : Text) :
    (leadAt level lead).length ≤ lead.length := by
  rw [leadAt]
  split
  · exact Nat.le_refl _
  · exact (List.dropWhile_sublist _).length_le

theorem length_written_flat_le (depth : Nat) (node : Node) :
    ((flat node).written depth).length ≤ node.inline.length := by
  have hlead := length_leadAt_le depth node.lead
  rw [written_flat, Node.inline, List.length_append, List.length_append]
  omega

end Layout

/-! ## Where a node begins -/

namespace Visit

/-- A node laid out by the length of the last line written so far, which below the top level
holds nothing but the indentation. -/
structure Placed (width : Int) (visit : Visit) : Prop where
  unbroken : visit.layout.node.Unbroken
  layout_eq : visit.layout =
    visit.layout.node.layout width visit.depth visit.before.lastLine.length
  indented : 0 < visit.depth → visit.before.lastLine.length = 4 * visit.depth

end Visit

namespace Node

variable {visit : Visit} {width : Int}

theorem length_lastLine_indented (before : Text) (depth : Nat) :
    (before ++ '\n' :: List.replicate (4 * depth) ' ').lastLine.length = 4 * depth := by
  rw [Text.lastLine_append_lineFeed (Layout.lineFeed_not_mem_spaces _), List.length_replicate]

mutual

theorem placed_layout {node : Node} {depth : Nat} {before : Text} (hnode : node.Unbroken)
    (hcolumn : 0 < depth → before.lastLine.length = 4 * depth)
    (h : visit ∈ (node.layout width depth before.lastLine.length).visits depth before) :
    visit.Placed width := by
  have hself : Visit.Placed width
      ⟨before, depth, node.layout width depth before.lastLine.length⟩ := by
    constructor
    · rwa [node_layout]
    · rw [node_layout]
    · exact hcolumn
  cases node with
  | leaf lead comma =>
      rw [layout, Layout.visits, List.mem_singleton] at h
      subst h
      rwa [layout] at hself
  | group lead bracket children comma =>
      rw [layout] at h hself
      split at h
      · next hfits =>
          rw [if_pos hfits] at hself
          rw [Layout.visits, List.mem_singleton] at h
          subst h
          exact hself
      · next hfits =>
          rw [if_neg hfits] at hself
          rw [Layout.visits, List.mem_cons] at h
          rcases h with rfl | h
          · exact hself
          · rw [← Int.natCast_succ] at h
            exact placed_layoutList (unbroken_group_iff.1 hnode).2 h

theorem placed_layoutList {nodes : List Node} {depth : Nat} {before : Text}
    (hnodes : Forest.Unbroken nodes)
    (h : visit ∈ Layout.visitsList depth before (layoutList width depth nodes)) :
    visit.Placed width := by
  cases nodes with
  | nil =>
      rw [layoutList] at h
      cases h
  | cons node rest =>
      obtain ⟨hnode, hrest⟩ := Forest.unbroken_cons_iff.1 hnodes
      have hcolumn := length_lastLine_indented before depth
      rw [layoutList, Layout.visitsList, List.mem_append] at h
      rcases h with h | h
      · refine placed_layout hnode (fun _ => hcolumn) ?_
        rw [hcolumn]
        exact h
      · exact placed_layoutList hrest h

end

end Node

namespace Layout

/-- The column behind a layout is the length of the last line then. -/
theorem length_lastLine_written {layout : Layout} (h : layout.node.Unbroken) (depth : Nat)
    (before : Text) :
    (before ++ layout.written depth).lastLine.length =
      (layout.segments depth).foldl Segment.columnAfter before.lastLine.length := by
  cases layout with
  | flat node =>
      have hfeed : '\n' ∉ (flat node).written depth := lineFeed_not_mem_written_flat h depth
      rw [Text.lastLine_append hfeed, List.length_append, written_flat, List.length_append]
      simp [segments, Segment.columnAfter, Nat.add_assoc]
  | split lead bracket children comma =>
      rw [written_split, closed, ← List.append_assoc, ← List.append_assoc,
        Text.lastLine_append_lineFeed (lineFeed_not_mem_closing depth bracket comma)]
      simp [segments, Segment.columnAfter, indentation, step]

end Layout

theorem Forest.placed_visitsTop {visit : Visit} {width : Int} {forest : Forest} {before : Text}
    (hforest : forest.Unbroken)
    (h : visit ∈ Layout.visitsTop before (forest.layouts width 0 before.lastLine.length)) :
    visit.Placed width := by
  induction forest generalizing before with
  | nil => cases h
  | cons node rest ih =>
      obtain ⟨hnode, hrest⟩ := Forest.unbroken_cons_iff.1 hforest
      have hlayout : (node.layout width 0 before.lastLine.length).node.Unbroken := by
        rwa [Node.node_layout]
      have hcolumn := Layout.length_lastLine_written hlayout 0 before
      rw [layouts, Layout.visitsTop, List.mem_append] at h
      rcases h with h | h
      · exact Node.placed_layout hnode (fun hdepth => absurd hdepth (Nat.lt_irrefl 0)) h
      · apply ih hrest
        rw [hcolumn]
        exact h

namespace Visit

variable {visit : Visit} {width : Int}

theorem Placed.flat_or_split (h : visit.Placed width) (hgroup : visit.layout.node.isLeaf = false) :
    (∃ node, visit.layout = .flat node ∧
        visit.before.lastLine.length + visit.layout.node.inline.length ≤ width) ∨
      ∃ lead bracket children comma, visit.layout = .split lead bracket children comma ∧
        width < visit.before.lastLine.length + visit.layout.node.inline.length := by
  have hlayout := h.layout_eq
  cases hnode : visit.layout.node with
  | leaf lead comma =>
      rw [hnode] at hgroup
      cases hgroup
  | group lead bracket children comma =>
      rw [hnode, Node.layout] at hlayout
      split at hlayout
      · next hfits =>
          have hlength := Node.fits_iff.1 hfits
          exact .inl ⟨_, hlayout, by omega⟩
      · next hfits =>
          have hlength := mt Node.fits_iff.2 hfits
          exact .inr ⟨_, _, _, _, hlayout, by omega⟩

/-- A group is written on one line just when its line, with the lead as it was and the comma,
fits behind the last line written so far. -/
theorem Placed.oneLine_iff (h : visit.Placed width) (hgroup : visit.layout.node.isLeaf = false) :
    '\n' ∉ visit.written ↔
      visit.before.lastLine.length + visit.layout.node.inline.length ≤ width := by
  rcases h.flat_or_split hgroup with ⟨node, hflat, hfits⟩ |
    ⟨lead, bracket, children, comma, hsplit, hlong⟩
  · have hnode := h.unbroken
    rw [hflat] at hnode
    refine iff_of_true ?_ hfits
    rw [written, hflat]
    exact Layout.lineFeed_not_mem_written_flat hnode visit.depth
  · refine iff_of_false ?_ (Int.not_le.2 hlong)
    rw [written, hsplit]
    exact not_not_intro (Layout.lineFeed_mem_written_split visit.depth lead bracket children comma)

theorem Placed.length_written_le (h : visit.Placed width)
    (hgroup : visit.layout.node.isLeaf = false) (hline : '\n' ∉ visit.written) :
    visit.written.length ≤ visit.layout.node.inline.length := by
  rcases h.flat_or_split hgroup with ⟨node, hflat, -⟩ |
    ⟨lead, bracket, children, comma, hsplit, -⟩
  · rw [written, hflat]
    exact Layout.length_written_flat_le visit.depth node
  · rw [written, hsplit] at hline
    exact absurd (Layout.lineFeed_mem_written_split visit.depth lead bracket children comma) hline

/-- Nothing of a group on one line is beyond the width. -/
theorem Placed.length_lastLine_le (h : visit.Placed width)
    (hgroup : visit.layout.node.isLeaf = false) (hline : '\n' ∉ visit.written) {part : Text}
    (hpart : part <+: visit.written) : (visit.before ++ part).lastLine.length ≤ width := by
  have hfits := (h.oneLine_iff hgroup).1 hline
  have hwritten := h.length_written_le hgroup hline
  have hlength := hpart.length_le
  rw [Text.lastLine_append (fun hmem => hline (hpart.subset hmem)), List.length_append]
  omega

end Visit

/-! ## Where a line ends -/

namespace Visit

/-- A line can end behind the opening bracket of a split group and behind any node. -/
inductive Stops (visit : Visit) : Text → Prop
  | opening {lead : Text} {bracket : Bracket} {children : List Layout} {comma : Bool} :
      visit.layout = .split lead bracket children comma →
      visit.Stops (visit.before ++ Layout.opened visit.depth lead bracket)
  | all : visit.Stops (visit.before ++ visit.written)

/-- A line ends here that may be too long. -/
inductive EndsLine (visit : Visit) : Text → Prop
  /-- Behind the opening bracket of a split group. -/
  | opening {lead : Text} {bracket : Bracket} {children : List Layout} {comma : Bool} :
      visit.layout = .split lead bracket children comma →
      visit.EndsLine (visit.before ++ Layout.opened visit.depth lead bracket)
  /-- Behind a leaf and its comma. -/
  | leaf : visit.layout.node.isLeaf = true → visit.EndsLine (visit.before ++ visit.written)
  /-- Behind the closing bracket of a split group and its comma. -/
  | closing {lead : Text} {bracket : Bracket} {children : List Layout} {comma : Bool} :
      visit.layout = .split lead bracket children comma →
      visit.EndsLine (visit.before ++ visit.written)

theorem Placed.endsLine {visit : Visit} {width : Int} {line : Text} (h : visit.Placed width)
    (hstops : visit.Stops line) (hlong : width < line.lastLine.length) : visit.EndsLine line := by
  cases hstops with
  | opening hsplit => exact .opening hsplit
  | all =>
      cases hleaf : visit.layout.node.isLeaf with
      | true => exact .leaf hleaf
      | false =>
          rcases h.flat_or_split hleaf with ⟨node, hflat, hfits⟩ |
            ⟨lead, bracket, children, comma, hsplit, -⟩
          · have hline := (h.oneLine_iff hleaf).2 hfits
            have hshort := h.length_lastLine_le hleaf hline (List.prefix_refl _)
            omega
          · exact .closing hsplit

end Visit

namespace Layout

/-- A line of a split group ends among its children, counting the line that its opening bracket
ends, or with the group. -/
theorem line_of_split {depth : Nat} {lead line rest : Text} {bracket : Bracket}
    {children : List Layout} {comma : Bool} (hlead : '\n' ∉ lead) (hrest : rest.Breaks)
    (h : (split lead bracket children comma).written depth = line ++ rest) :
    (∃ inner tail, tail.Breaks ∧ writtenList (depth + 1) children = inner ++ tail ∧
      line = opened depth lead bracket ++ inner) ∨
    line = (split lead bracket children comma).written depth := by
  have hwritten := written_split depth lead bracket children comma
  obtain ⟨inner, rfl, hinner⟩ :=
    hrest.skip (lineFeed_not_mem_opened hlead depth bracket) (hwritten.symm.trans h)
  rcases hrest.cut hinner with ⟨tail, htail, hchild⟩ | ⟨last, rfl, hlast⟩
  · exact .inl ⟨inner, tail, htail, hchild, rfl⟩
  · cases last with
    | nil =>
        rw [List.append_nil]
        exact .inl ⟨_, [], Text.breaks_nil, (List.append_nil _).symm, rfl⟩
    | cons c last =>
        obtain ⟨rfl, hclosing⟩ := List.cons.inj hlast
        have hend := hrest.eq_of_append (lineFeed_not_mem_closing depth bracket comma) hclosing
        rw [hwritten, closed, hend]
        exact .inr rfl

mutual

theorem exists_stops {layout : Layout} {depth : Nat} {line rest : Text}
    (hlayout : layout.node.Unbroken) (hrest : rest.Breaks)
    (h : layout.written depth = line ++ rest) (before : Text) :
    ∃ visit ∈ layout.visits depth before, visit.Stops (before ++ line) := by
  cases layout with
  | flat node =>
      have hfeed : '\n' ∉ (flat node).written depth := lineFeed_not_mem_written_flat hlayout depth
      have hline : line = (flat node).written depth := hrest.eq_of_append hfeed h
      subst hline
      exact ⟨_, self_mem_visits depth before (flat node), .all⟩
  | split lead bracket children comma =>
      obtain ⟨hlead, hchildren⟩ := Node.unbroken_group_iff.1 hlayout
      have hself := self_mem_visits depth before (split lead bracket children comma)
      rcases line_of_split hlead hrest h with ⟨inner, tail, htail, hinner, rfl⟩ | rfl
      · rw [← List.append_assoc]
        rcases exists_stops_list hchildren htail hinner (before ++ opened depth lead bracket) with
          rfl | ⟨visit, hmem, hstops⟩
        · rw [List.append_nil]
          exact ⟨_, hself, .opening rfl⟩
        · rw [visits]
          exact ⟨visit, List.mem_cons_of_mem _ hmem, hstops⟩
      · exact ⟨_, hself, .all⟩

/-- A line of layouts on lines of their own is the one before them all, or ends at a visit. -/
theorem exists_stops_list {layouts : List Layout} {depth : Nat} {line rest : Text}
    (hlayouts : Forest.Unbroken (nodes layouts)) (hrest : rest.Breaks)
    (h : writtenList depth layouts = line ++ rest) (before : Text) :
    line = [] ∨ ∃ visit ∈ visitsList depth before layouts, visit.Stops (before ++ line) := by
  cases layouts with
  | nil => exact .inl (List.append_eq_nil_iff.1 h.symm).1
  | cons layout others =>
      obtain ⟨hlayout, hothers⟩ := Forest.unbroken_cons_iff.1 hlayouts
      cases line with
      | nil => exact .inl rfl
      | cons c line =>
          obtain ⟨rfl, hline⟩ := List.cons.inj h
          obtain ⟨inner, rfl, hinner⟩ := hrest.skip (lineFeed_not_mem_spaces _) hline
          have hstart : before ++ '\n' :: (List.replicate (4 * depth) ' ' ++ inner) =
              before ++ '\n' :: List.replicate (4 * depth) ' ' ++ inner := by
            rw [List.append_assoc, List.cons_append]
          right
          rw [hstart, visitsList]
          rcases hrest.cut hinner with ⟨tail, htail, hfirst⟩ | ⟨last, rfl, hlast⟩
          · obtain ⟨visit, hmem, hstops⟩ := exists_stops hlayout htail hfirst _
            exact ⟨visit, List.mem_append_left _ hmem, hstops⟩
          · rw [← List.append_assoc]
            rcases exists_stops_list hothers hrest hlast _ with rfl | ⟨visit, hmem, hstops⟩
            · obtain ⟨visit, hmem, hstops⟩ :=
                exists_stops hlayout Text.breaks_nil (List.append_nil _).symm _
              rw [List.append_nil]
              exact ⟨visit, List.mem_append_left _ hmem, hstops⟩
            · exact ⟨visit, List.mem_append_right _ hmem, hstops⟩

end

/-- At the top level every line ends where a visit stops, unless there is nothing to visit. -/
theorem exists_stops_top {layouts : List Layout} {line rest : Text} (hne : layouts ≠ [])
    (hlayouts : Forest.Unbroken (nodes layouts)) (hrest : rest.Breaks)
    (h : layouts.flatMap (written 0) = line ++ rest) (before : Text) :
    ∃ visit ∈ visitsTop before layouts, visit.Stops (before ++ line) := by
  induction layouts generalizing line before with
  | nil => exact absurd rfl hne
  | cons layout others ih =>
      obtain ⟨hlayout, hothers⟩ := Forest.unbroken_cons_iff.1 hlayouts
      rw [List.flatMap_cons] at h
      rw [visitsTop]
      have hhere : ∀ {tail : Text}, tail.Breaks → layout.written 0 = line ++ tail →
          ∃ visit ∈ layout.visits 0 before ++ visitsTop (before ++ layout.written 0) others,
            visit.Stops (before ++ line) := by
        intro tail htail hwritten
        obtain ⟨visit, hmem, hstops⟩ := exists_stops hlayout htail hwritten before
        exact ⟨visit, List.mem_append_left _ hmem, hstops⟩
      rcases hrest.cut h with ⟨tail, htail, hfirst⟩ | ⟨last, rfl, hlast⟩
      · exact hhere htail hfirst
      · by_cases hnil : others = []
        · subst hnil
          obtain ⟨rfl, -⟩ := List.append_eq_nil_iff.1 hlast.symm
          rw [List.append_nil] at hhere ⊢
          exact hhere Text.breaks_nil (List.append_nil _).symm
        · obtain ⟨visit, hmem, hstops⟩ := ih hnil hothers hlast (before ++ layout.written 0)
          rw [List.append_assoc] at hstops
          exact ⟨visit, List.mem_append_right _ hmem, hstops⟩

end Layout

theorem Forest.layouts_ne_nil {forest : Forest} (h : forest ≠ []) (width level : Int)
    (column : Nat) : forest.layouts width level column ≠ [] := by
  cases forest with
  | nil => exact absurd rfl h
  | cons node rest => exact List.cons_ne_nil _ _

/-- A forest without line feeds is laid out by the real length of its last line.  The nodes that
are not inside a group on one line are visited, those below the top level at their indentation.
A group among them is written on one line just when its line, with the lead as it was and the
comma, fits behind the last line, and then no part of it is beyond the width.  Only a leaf and
the brackets of a split group end a line that is.  An empty forest writes no line. -/
theorem Forest.width_discipline {forest : Forest} (h : forest.Unbroken) (width : Int) :
    forest.Covered (forest.visits width) ∧
      (∀ visit ∈ forest.visits width,
        visit.before ++ visit.written <+: forest.render width ∧
          (0 < visit.depth → visit.before.lastLine.length = 4 * visit.depth) ∧
          (visit.layout.node.isLeaf = false →
            ('\n' ∉ visit.written ↔
                visit.before.lastLine.length + visit.layout.node.inline.length ≤ width) ∧
              ('\n' ∉ visit.written → ∀ part, part <+: visit.written →
                (visit.before ++ part).lastLine.length ≤ width))) ∧
      ∀ line rest, forest ≠ [] → forest.render width = line ++ rest → rest.Breaks →
        width < line.lastLine.length → ∃ visit ∈ forest.visits width, visit.EndsLine line := by
  have hplaced : ∀ visit ∈ forest.visits width, visit.Placed width :=
    fun visit hvisit => placed_visitsTop h hvisit
  have hrender := forest.render_eq_flatMap width
  refine ⟨forest.covered_visits width, ?_, ?_⟩
  · intro visit hvisit
    have hvisited := hplaced visit hvisit
    refine ⟨?_, hvisited.indented, fun hgroup => ⟨hvisited.oneLine_iff hgroup, ?_⟩⟩
    · have hbegins := Layout.visitsTop_begins hvisit
      rw [← hrender] at hbegins
      exact hbegins
    · intro hline part hpart
      exact hvisited.length_lastLine_le hgroup hline hpart
  · intro line rest hne hline hrest hlong
    have hnodes : Forest.Unbroken (Layout.nodes (forest.layouts width 0 0)) := by
      rwa [Forest.nodes_layouts]
    obtain ⟨visit, hvisit, hstops⟩ := Layout.exists_stops_top (forest.layouts_ne_nil hne width 0 0)
      hnodes hrest (hrender.symm.trans hline) []
    exact ⟨visit, hvisit, (hplaced visit hvisit).endsLine hstops hlong⟩

/-- Two groups side by side: the first is written on one line, and the second, which begins
where the first one ended, is split, so the line with its opening bracket is too long. -/
theorem Forest.width_discipline_second :
    let forest : Forest :=
      [.group ['f'] .round [.leaf ['a'] false] false,
        .group [' ', 'g'] .round [.leaf ['b'] false] false]
    let line : Text := ['f', '(', 'a', ')', ' ', 'g', '(']
    forest.render 5 = line ++ ['\n', ' ', ' ', ' ', ' ', 'b', '\n', ')'] ∧
      ∃ visit ∈ forest.visits 5, visit.EndsLine line := by
  intro forest line
  have hunbroken : forest.Unbroken := by decide
  have hline : forest.render 5 = line ++ ['\n', ' ', ' ', ' ', ' ', 'b', '\n', ')'] := by decide
  have hbreaks : Text.Breaks ['\n', ' ', ' ', ' ', ' ', 'b', '\n', ')'] := by
    intro c hc
    exact (Option.some.inj hc).symm
  exact ⟨hline, (width_discipline hunbroken 5).2.2 line _ (List.cons_ne_nil _ _) hline hbreaks
    (by decide)⟩

end Bracketed
