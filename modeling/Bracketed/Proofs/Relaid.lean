import Bracketed.Proofs.Agreement
import Bracketed.Proofs.Depth
import Bracketed.Proofs.LaidOut
import Bracketed.Proofs.RoundTrip
import Bracketed.Proofs.Trim

/-!
# Laid out forests are read again

The line breaks of a laid out forest are text to the reader.  One before a child is the
beginning of its lead, and the one before a closing bracket continues a bare leaf or is
a leaf of its own.  So the written text is some other forest on one line, and that
forest is canonical and nests no deeper.  The two forests agree once their leads are
trimmed and their bare leaves without text are dropped.
-/

namespace Bracketed

namespace Node

/-- Text behind some nodes: it continues a bare leaf or is one. -/
def extend : List Node → Text → List Node
  | [], text => [.leaf text false]
  | [.leaf lead false], text => [.leaf (lead ++ text) false]
  | node :: rest, text => node :: extend rest text

def setLead (lead : Text) : Node → Node
  | leaf _ comma => leaf lead comma
  | group _ bracket children comma => group lead bracket children comma

mutual

/-- The node with its leads trimmed and without the bare leaves that then have no text. -/
def norm : Node → Node
  | leaf lead comma => leaf lead.trim comma
  | group lead bracket children comma => group lead.trim bracket (normList children) comma

def normList : List Node → List Node
  | [] => []
  | node :: rest =>
      if node.norm = .leaf [] false then normList rest else node.norm :: normList rest

end

end Node

namespace Layout

/-- A line break and the indentation behind it. -/
def lineBreak (level : Int) : Text :=
  (Segment.line (indentation level)).written

/-- A lead as written behind some blanks. -/
def leadBehind (before : Text) (level : Int) (lead : Text) : Text :=
  before ++ leadAt level lead

mutual

/-- The node that a layout is read as when it is written behind some blanks. -/
def relaid (before : Text) (level : Int) : Layout → Node
  | flat node => node.setLead (leadBehind before level node.lead)
  | split lead bracket children comma =>
      .group (leadBehind before level lead) bracket
        (Node.extend (relaidList (lineBreak (level + 1)) (level + 1) children) (lineBreak level))
        comma

def relaidList (before : Text) (level : Int) : List Layout → List Node
  | [] => []
  | layout :: rest => layout.relaid before level :: relaidList before level rest

end

end Layout

/-! ## What is written -/

namespace Node

theorem inlineList_extend (nodes : List Node) (text : Text) :
    inlineList (extend nodes text) = inlineList nodes ++ text := by
  fun_induction extend nodes text with
  | case1 text => simp [inlineList, lead, body, suffixText]
  | case2 lead text => simp [inlineList, Node.lead, body, suffixText]
  | case3 node rest text hnode ih => simp [inlineList, ih]

theorem head?_extend {nodes : List Node} {text : Text} {first : Node}
    (h : first ∈ (extend nodes text).head?) :
    (∃ lead, first = leaf lead false) ∨ first ∈ nodes.head? := by
  fun_induction extend nodes text with
  | case1 text =>
      cases h
      exact .inl ⟨text, rfl⟩
  | case2 lead text =>
      cases h
      exact .inl ⟨lead ++ text, rfl⟩
  | case3 node rest text hnode ih => exact .inr h

theorem inline_setLead (lead : Text) (node : Node) :
    (node.setLead lead).inline = lead ++ node.body := by
  cases node <;> rfl

end Node

namespace Layout

mutual

theorem inline_relaid (before : Text) (level : Int) (layout : Layout) :
    (layout.relaid before level).inline =
      before ++ (layout.segments level).flatMap Segment.written := by
  cases layout with
  | flat node => simp [relaid, Node.inline_setLead, leadBehind, segments, Segment.written]
  | split lead bracket children comma =>
      have hchildren := inlineList_relaidList (level + 1) children
      rw [relaid, Node.inline_group, Node.inlineList_extend, hchildren]
      simp [leadBehind, segments, Segment.written, lineBreak]

theorem inlineList_relaidList (level : Int) (layouts : List Layout) :
    Node.inlineList (relaidList (lineBreak level) level layouts) =
      (segmentsList level layouts).flatMap Segment.written := by
  cases layouts with
  | nil => rfl
  | cons layout rest =>
      have hfirst := inline_relaid (lineBreak level) level layout
      have hrest := inlineList_relaidList level rest
      rw [Node.inline] at hfirst
      rw [relaidList, Node.inlineList, hrest, hfirst]
      simp [segmentsList, lineBreak]

end

end Layout

/-! ## What is read -/

theorem Text.Blank.plain {text : Text} (h : text.Blank) (opened : List Bracket) :
    text.Plain opened := by
  intro c hmem
  rw [h.unquoted] at hmem
  exact Role.of_isBlank (h c hmem)

namespace Layout

/-- Blanks go before a lead, unless it stands at the top level, where it stays as it is. -/
structure Begins (before : Text) (level : Int) : Prop where
  blank : before.Blank
  before_ne_nil : level ≠ 0 → before ≠ []

theorem blank_lineBreak (level : Int) : (lineBreak level).Blank := by
  intro c hmem
  rcases List.mem_cons.1 hmem with rfl | hspace
  · decide
  · rw [List.eq_of_mem_replicate hspace]
    decide

theorem begins_lineBreak (level : Int) : Begins (lineBreak level) level :=
  ⟨blank_lineBreak level, fun _ => List.cons_ne_nil _ _⟩

variable {before lead : Text} {level : Int} {opened : List Bracket}

theorem Begins.ne_nil (h : Begins before level) (hlead : lead ≠ []) :
    leadBehind before level lead ≠ [] := by
  intro hnil
  obtain ⟨hbefore, hleadAt⟩ := List.append_eq_nil_iff.1 hnil
  by_cases hlevel : level = 0
  · rw [leadAt, if_pos hlevel] at hleadAt
    exact hlead hleadAt
  · exact h.before_ne_nil hlevel hbefore

theorem Begins.closed (h : Begins before level) (hlead : lead.Closed) :
    (leadBehind before level lead).Closed := by
  apply h.blank.closed.append
  unfold leadAt
  split
  · exact hlead
  · exact hlead.trimLeft

theorem Begins.plain (h : Begins before level) (hlead : lead.Plain opened) :
    (leadBehind before level lead).Plain opened := by
  apply (h.blank.plain opened).append h.blank.closed
  unfold leadAt
  split
  · exact hlead
  · intro c hmem
    exact hlead c (lead.unquoted_trimLeft_subset hmem)

/-- Blanks make no text quoted that was not. -/
theorem Begins.quoted (h : Begins before level) (hquoted : (leadBehind before level lead).Quoted) :
    lead.Quoted := by
  by_cases hbefore : before = []
  · have hlevel : level = 0 := by
      by_contra hlevel
      exact h.before_ne_nil hlevel hbefore
    rw [leadBehind, hbefore, leadAt, if_pos hlevel] at hquoted
    exact hquoted
  · exact absurd hquoted (h.blank.not_quoted_append hbefore _)

theorem Begins.trim (h : Begins before level) (lead : Text) :
    (leadBehind before level lead).trim = lead.trim := by
  rw [leadBehind, h.blank.trim_append, leadAt]
  split
  · rfl
  · exact lead.trim_trimLeft

/-! ### Neighbours -/

theorem bare_relaid (before : Text) (level : Int) (layout : Layout) :
    (layout.relaid before level).Bare ↔ layout.node.Bare := by
  rcases layout with ⟨⟨lead, comma⟩ | ⟨lead, bracket, children, comma⟩⟩ |
    ⟨lead, bracket, children, comma⟩ <;> rfl

theorem comma_relaid (before : Text) (level : Int) (layout : Layout) :
    (layout.relaid before level).comma = layout.node.comma := by
  rcases layout with ⟨⟨lead, comma⟩ | ⟨lead, bracket, children, comma⟩⟩ |
    ⟨lead, bracket, children, comma⟩ <;> rfl

theorem node_of_relaid_leaf {layout : Layout} {text : Text} {comma : Bool}
    (h : layout.relaid before level = .leaf text comma) :
    ∃ lead, layout.node = .leaf lead comma ∧ text = leadBehind before level lead := by
  rcases layout with ⟨⟨lead, comma'⟩ | ⟨lead, bracket, children, comma'⟩⟩ |
    ⟨lead, bracket, children, comma'⟩
  · cases h
    exact ⟨lead, rfl, rfl⟩
  · cases h
  · cases h

/-- Nodes that keep apart still do when blanks go before them. -/
theorem Begins.links (h : Begins before level) {first second : Layout}
    (hlinks : Node.Links opened first.node second.node) :
    Node.Links opened (first.relaid before level) (second.relaid before level) where
  not_bare := by
    rw [bare_relaid]
    exact hlinks.not_bare
  comma := by
    intro hcomma text hsecond hquoted
    rw [comma_relaid] at hcomma
    obtain ⟨lead, hlead, rfl⟩ := node_of_relaid_leaf hsecond
    exact hlinks.comma hcomma lead hlead (h.quoted hquoted)
  ending := by
    intro hroot text hsecond hquoted
    obtain ⟨lead, hlead, rfl⟩ := node_of_relaid_leaf hsecond
    exact hlinks.ending hroot lead hlead (h.quoted hquoted)

end Layout

/-- Text at the end of a group goes well behind a row. -/
theorem Row.extend {outer : List Bracket} {bracket : Bracket} {nodes : List Node} {text : Text}
    (h : Row (bracket :: outer) nodes) (hplain : text.Plain (bracket :: outer))
    (hclosed : text.Closed) (hne : text ≠ []) :
    Row (bracket :: outer) (Node.extend nodes text) := by
  fun_induction Node.extend nodes text with
  | case1 text =>
      refine Row.cons (.leaf hne hplain (.inl hclosed)) (Row.nil _) ?_
      intro next hnext
      cases hnext
  | case2 lead text =>
      cases h.canonical _ List.mem_cons_self with
      | leaf hlead_ne hlead_plain hlead_closed =>
          have hlead := hlead_closed.resolve_right fun hboth => List.cons_ne_nil _ _ hboth.1
          refine Row.cons (.leaf ?_ (hlead_plain.append hlead hplain) (.inl (hlead.append hclosed)))
            (Row.nil _) ?_
          · intro hnil
            exact hne (List.append_eq_nil_iff.1 hnil).2
          · intro next hnext
            cases hnext
  | case3 node rest text hnode ih =>
      refine Row.cons (h.canonical node List.mem_cons_self) (ih h.tail hplain hclosed hne) ?_
      intro next hnext
      have hnot_bare : ¬ node.Bare := by
        intro hbare
        obtain ⟨lead, rfl⟩ := Node.eq_leaf_of_bare hbare
        exact hnode lead rfl (h.eq_nil_of_bare hbare)
      rcases Node.head?_extend hnext with ⟨lead, rfl⟩ | hrest
      · exact .bare_leaf hnot_bare fun hroot => absurd hroot (List.cons_ne_nil _ _)
      · exact h.links.rel_head? hrest

namespace Layout

mutual

/-- A layout is read as a canonical node if it writes one. -/
theorem canonical_relaid {before : Text} {level : Int} (hbegins : Begins before level)
    {opened : List Bracket} (layout : Layout) (h : layout.node.Canonical opened) :
    (layout.relaid before level).Canonical opened := by
  cases layout with
  | flat node =>
      cases h with
      | leaf hne hplain hclosed =>
          exact .leaf (hbegins.ne_nil hne) (hbegins.plain hplain) (hclosed.imp_left hbegins.closed)
      | group hplain hclosed hchildren hlinks =>
          exact .group (hbegins.plain hplain) (hbegins.closed hclosed) hchildren hlinks
  | split lead bracket children comma =>
      cases h with
      | group hplain hclosed hchildren hlinks =>
          have hrow := row_relaidList (begins_lineBreak (level + 1)) children ⟨hchildren, hlinks⟩
          have hblank := blank_lineBreak level
          have hextended := hrow.extend (hblank.plain _) hblank.closed (List.cons_ne_nil _ _)
          exact .group (hbegins.plain hplain) (hbegins.closed hclosed) hextended.canonical
            hextended.links

theorem row_relaidList {before : Text} {level : Int} (hbegins : Begins before level)
    {opened : List Bracket} (layouts : List Layout) (h : Row opened (nodes layouts)) :
    Row opened (relaidList before level layouts) := by
  cases layouts with
  | nil => exact Row.nil opened
  | cons layout rest =>
      have hfirst := canonical_relaid hbegins layout (h.canonical _ List.mem_cons_self)
      refine Row.cons hfirst (row_relaidList hbegins rest h.tail) ?_
      intro next hnext
      cases rest with
      | nil => cases hnext
      | cons second more =>
          cases hnext
          exact hbegins.links (h.links.rel_head? rfl)

end

end Layout

/-! ## Trimmed forests -/

namespace Node

theorem normList_extend (nodes : List Node) {text : Text} (h : text.Blank) :
    normList (extend nodes text) = normList nodes := by
  fun_induction extend nodes text with
  | case1 text => simp [normList, norm, h.trim]
  | case2 lead text => simp [normList, norm, h.append_trim]
  | case3 node rest text hnode ih => rw [normList, normList, ih h]

theorem norm_setLead {lead : Text} {node : Node} (h : lead.trim = node.lead.trim) :
    (node.setLead lead).norm = node.norm := by
  cases node with
  | leaf lead' comma => rw [setLead, norm, h, norm, Node.lead]
  | group lead' bracket children comma => rw [setLead, norm, h, norm, Node.lead]

theorem depthList_extend (nodes : List Node) (text : Text) :
    depthList (extend nodes text) = depthList nodes := by
  fun_induction extend nodes text with
  | case1 text => rfl
  | case2 lead text => rfl
  | case3 node rest text hnode ih => rw [depthList, depthList, ih]

theorem depth_setLead (lead : Text) (node : Node) : (node.setLead lead).depth = node.depth := by
  cases node <;> rfl

end Node

namespace Layout

mutual

/-- Line breaks and indentation are trimmed away. -/
theorem norm_relaid {before : Text} {level : Int} (hbegins : Begins before level)
    (layout : Layout) : (layout.relaid before level).norm = layout.node.norm := by
  cases layout with
  | flat node =>
      rw [relaid, Layout.node]
      exact Node.norm_setLead (hbegins.trim node.lead)
  | split lead bracket children comma =>
      rw [relaid, Layout.node, Node.norm, Node.norm, hbegins.trim,
        Node.normList_extend _ (blank_lineBreak level),
        normList_relaidList (begins_lineBreak (level + 1)) children]

theorem normList_relaidList {before : Text} {level : Int} (hbegins : Begins before level)
    (layouts : List Layout) :
    Node.normList (relaidList before level layouts) = Node.normList (nodes layouts) := by
  cases layouts with
  | nil => rfl
  | cons layout rest =>
      rw [relaidList, nodes, Node.normList, Node.normList, norm_relaid hbegins layout,
        normList_relaidList hbegins rest]

end

mutual

theorem depth_relaid (before : Text) (level : Int) (layout : Layout) :
    (layout.relaid before level).depth = layout.node.depth := by
  cases layout with
  | flat node => rw [relaid, Layout.node, Node.depth_setLead]
  | split lead bracket children comma =>
      rw [relaid, Layout.node, Node.depth, Node.depth, Node.depthList_extend,
        depthList_relaidList]

theorem depthList_relaidList (before : Text) (level : Int) (layouts : List Layout) :
    Node.depthList (relaidList before level layouts) = Node.depthList (nodes layouts) := by
  cases layouts with
  | nil => rfl
  | cons layout rest =>
      rw [relaidList, nodes, Node.depthList, Node.depthList, depth_relaid, depthList_relaidList]

end

end Layout

/-! ## Whole texts -/

namespace Forest

/-- The forest that a laid out forest is read as. -/
def relaid (width : Int) (forest : Forest) : Forest :=
  Layout.relaidList [] 0 (forest.layouts width 0 0)

theorem inlineList_relaidList_layouts (width level : Int) (column : Nat) (forest : Forest) :
    Node.inlineList (Layout.relaidList [] level (layouts width level column forest)) =
      (forest.segments width level column).flatMap Segment.written := by
  induction forest generalizing column with
  | nil => rfl
  | cons node rest ih =>
      have hfirst := (node.layout width level column).inline_relaid [] level
      rw [Node.inline, List.nil_append] at hfirst
      rw [layouts, Layout.relaidList, Node.inlineList, ih, hfirst, segments, List.flatMap_append]

theorem inline_relaid (width : Int) (forest : Forest) :
    (forest.relaid width).inline = forest.render width :=
  inlineList_relaidList_layouts width 0 0 forest

theorem begins_top : Layout.Begins [] 0 where
  blank := by
    intro c hmem
    cases hmem
  before_ne_nil := fun hlevel => absurd rfl hlevel

theorem canonical_relaid {forest : Forest} (h : forest.Canonical) (width : Int) :
    (forest.relaid width).Canonical := by
  apply Layout.row_relaidList begins_top
  rw [nodes_layouts]
  exact h

theorem normList_relaid (width : Int) (forest : Forest) :
    Node.normList (forest.relaid width) = Node.normList forest := by
  rw [relaid, Layout.normList_relaidList begins_top, nodes_layouts]

theorem depthList_relaid (width : Int) (forest : Forest) :
    Node.depthList (forest.relaid width) = Node.depthList forest := by
  rw [relaid, Layout.depthList_relaidList, nodes_layouts]

theorem relaid_ne_nil {forest : Forest} (h : forest ≠ []) (width : Int) :
    forest.relaid width ≠ [] := by
  cases forest with
  | nil => exact absurd rfl h
  | cons node rest => exact List.cons_ne_nil _ _

/-- Formatting keeps the structure of a text.  The formatted text is read again, and as
the same forest once the leads are trimmed and the bare leaves without text dropped. -/
theorem exists_read_format {limit : Nat} {text : Text} {reading : Reading Forest}
    (hnesting : text.nesting < limit) (hread : Forest.read limit text = .ok reading)
    (hne : reading.forest ≠ []) (width : Int) :
    ∃ again, Forest.read limit (format limit text width).text = .ok again ∧ again.forest ≠ [] ∧
      Node.normList again.forest = Node.normList reading.forest := by
  have hforest := forest_examine hread
  have hwritten : (format limit text width).text = (reading.forest.relaid width).inline := by
    rw [format_of_forest_ne_nil (by rwa [hforest]), hforest, inline_relaid]
  have hrun := (run_eq_ok_iff hread).2 ⟨rfl, hne⟩
  have hcanonical := canonical_relaid (canonical_of_run hrun) width
  have hrun_again := run_inline hcanonical (relaid_ne_nil hne width)
  have hnesting_again : Text.nesting (reading.forest.relaid width).inline < limit := by
    rw [Text.nesting_eq_depthList hrun_again, depthList_relaid,
      ← Text.nesting_eq_depthList hrun]
    exact hnesting
  obtain ⟨again, hread_again⟩ := exists_read hnesting_again
  obtain ⟨hagain, hagain_ne⟩ := (run_eq_ok_iff hread_again).1 hrun_again
  refine ⟨again, ?_, ?_, ?_⟩
  · rw [hwritten, hread_again]
  · rw [hagain]
    exact hagain_ne
  · rw [hagain, normList_relaid]

/-- Split brackets with nothing inside, and with nothing but a blank behind a comma: the
line breaks are read as leaves, and these have no text once they are trimmed. -/
theorem exists_read_format_blank :
    (format 3 ['f', '(', '[', ']', ',', ' ', ')'] 0).text =
      ['f', '(', '\n', ' ', ' ', ' ', ' ', '[', '\n', ' ', ' ', ' ', ' ', ']', ',',
        '\n', ' ', ' ', ' ', ' ', '\n', ')'] ∧
    ∃ again, Forest.read 3 (format 3 ['f', '(', '[', ']', ',', ' ', ')'] 0).text = .ok again ∧
      again.forest ≠ [] ∧
      Node.normList again.forest = [.group ['f'] .round [.group [] .square [] true] false] := by
  have hnesting : Text.nesting ['f', '(', '[', ']', ',', ' ', ')'] < 3 := by
    decide +kernel
  have hforest : (Forest.read 3 ['f', '(', '[', ']', ',', ' ', ')']).map Reading.forest =
      .ok [.group ['f'] .round [.group [] .square [] true, .leaf [' '] false] false] := rfl
  obtain ⟨reading, hread⟩ := exists_read hnesting
  rw [hread] at hforest
  have hreading := Except.ok.inj hforest
  have hne : reading.forest ≠ [] := by
    rw [hreading]
    exact List.cons_ne_nil _ _
  obtain ⟨again, hagain, hagain_ne, hnorm⟩ := exists_read_format hnesting hread hne 0
  refine ⟨by decide +kernel, again, hagain, hagain_ne, ?_⟩
  rw [hnorm, hreading]
  decide +kernel

end Forest

end Bracketed
