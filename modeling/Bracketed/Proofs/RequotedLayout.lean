import Bracketed.Proofs.Columns
import Bracketed.Proofs.Requoted

/-!
# Requoted layouts

A layout looks at a lead for its length and for the blanks that it begins with.  So forests
that differ in spans of one length are laid out alike, and what is written differs in those
spans only.
-/

namespace Bracketed

variable {requoting first second : Requoting}

namespace Layout

mutual

/-- The layout with every quoted span of its leads exchanged. -/
def requote (requoting : Requoting) : Layout → Layout
  | flat node => flat (node.requote requoting)
  | split lead bracket children comma =>
      split (lead.requote requoting) bracket (requoteList requoting children) comma

def requoteList (requoting : Requoting) : List Layout → List Layout
  | [] => []
  | layout :: rest => layout.requote requoting :: requoteList requoting rest

end

end Layout

/-! ## What is written -/

/-- Closed text, and what becomes of it when its spans are exchanged. -/
structure Text.Exchanged (requoting : Requoting) (text result : Text) : Prop where
  closed : text.Closed
  eq : text.requote requoting = result

namespace Text

variable {text result more others : Text} {c : Char}

theorem Closed.exchanged (h : text.Closed) (requoting : Requoting) :
    text.Exchanged requoting (text.requote requoting) :=
  ⟨h, rfl⟩

namespace Exchanged

theorem nil (requoting : Requoting) : Exchanged requoting [] [] :=
  ⟨closed_nil, rfl⟩

theorem cons (hmark : Mark.ofChar? c = none) (h : text.Exchanged requoting result) :
    Exchanged requoting (c :: text) (c :: result) where
  closed := (closed_cons_iff hmark text).2 h.closed
  eq := by rw [requote_cons hmark, h.eq]

theorem append (h : text.Exchanged requoting result) (h' : more.Exchanged requoting others) :
    Exchanged requoting (text ++ more) (result ++ others) where
  closed := h.closed.append h'.closed
  eq := by rw [h.closed.requote_append, h.eq, h'.eq]

theorem suffixText (requoting : Requoting) (comma : Bool) :
    Exchanged requoting (Node.suffixText comma) (Node.suffixText comma) := by
  cases comma with
  | false => exact nil requoting
  | true => exact cons ofChar?_separator (nil requoting)

theorem spaces (requoting : Requoting) (count : Nat) :
    Exchanged requoting (List.replicate count ' ') (List.replicate count ' ') := by
  induction count with
  | zero => exact nil requoting
  | succ count ih => exact cons rfl ih

theorem leadAt (h : text.Closed) (requoting : Requoting) (level : Int) :
    Exchanged requoting (Layout.leadAt level text)
      (Layout.leadAt level (text.requote requoting)) := by
  unfold Layout.leadAt
  split
  · exact h.exchanged requoting
  · rw [← requote_trimLeft]
    exact h.trimLeft.exchanged requoting

end Exchanged

end Text

/-- No lead leaves a quote open. -/
def Node.Sealed (node : Node) : Prop :=
  ∀ lead ∈ node.leads, lead.Closed

def Forest.Sealed (forest : Forest) : Prop :=
  ∀ lead ∈ Node.leadsList forest, lead.Closed

theorem Forest.sealed_cons_iff {node : Node} {rest : List Node} :
    Forest.Sealed (node :: rest) ↔ node.Sealed ∧ Forest.Sealed rest :=
  Node.forall_leadsList_cons_iff

theorem Forest.sealed_iff {forest : Forest} : forest.Sealed ↔ ∀ node ∈ forest, node.Sealed := by
  induction forest with
  | nil => simp [Sealed, Node.leadsList]
  | cons node rest ih => rw [List.forall_mem_cons, ← ih, sealed_cons_iff]

namespace Node

theorem sealed_group_iff {lead : Text} {bracket : Bracket} {children : List Node} {comma : Bool} :
    (group lead bracket children comma).Sealed ↔ lead.Closed ∧ Forest.Sealed children :=
  forall_leads_group_iff

theorem Sealed.closed_lead {node : Node} (h : node.Sealed) : node.lead.Closed := by
  cases node with
  | leaf lead comma => exact forall_leads_leaf_iff.1 h
  | group lead bracket children comma => exact (sealed_group_iff.1 h).1

/-- A canonical node leaves a quote open only at the very end. -/
theorem Canonical.sealed {opened : List Bracket} {node : Node} (h : node.Canonical opened)
    (hend : opened = [] → ¬ node.Bare) : node.Sealed := by
  induction h with
  | leaf ne_nil plain closed =>
      rcases closed with hclosed | ⟨hopened, hcomma⟩
      · exact forall_leads_leaf_iff.2 hclosed
      · exact absurd hcomma (hend hopened)
  | group plain closed children_canonical children_link ih =>
      refine sealed_group_iff.2 ⟨closed, Forest.sealed_iff.2 ?_⟩
      intro child hchild
      exact ih child hchild fun hopened => absurd hopened (List.cons_ne_nil _ _)

theorem lead_requote (requoting : Requoting) (node : Node) :
    (node.requote requoting).lead = node.lead.requote requoting := by
  cases node <;> rfl

mutual

theorem Sealed.exchanged_body {node : Node} (h : node.Sealed) (requoting : Requoting) :
    node.body.Exchanged requoting (node.requote requoting).body := by
  cases node with
  | leaf lead comma => exact .suffixText requoting comma
  | group lead bracket children comma =>
      have hchildren := Sealed.exchanged_inlineList (sealed_group_iff.1 h).2 requoting
      have hsuffix := Text.Exchanged.suffixText requoting comma
      exact .cons (Bracket.ofChar?_opening bracket)
        (hchildren.append (.cons (Bracket.ofChar?_closing bracket) hsuffix))

theorem Sealed.exchanged_inlineList {nodes : List Node} (h : Forest.Sealed nodes)
    (requoting : Requoting) :
    (inlineList nodes).Exchanged requoting (inlineList (requoteList requoting nodes)) := by
  cases nodes with
  | nil => exact .nil requoting
  | cons node rest =>
      obtain ⟨hnode, hrest⟩ := Forest.sealed_cons_iff.1 h
      have hlead := hnode.closed_lead.exchanged requoting
      rw [← lead_requote] at hlead
      exact (hlead.append (hnode.exchanged_body requoting)).append
        (Sealed.exchanged_inlineList hrest requoting)

end

end Node

namespace Layout

mutual

theorem exchanged_written {layout : Layout} (h : layout.node.Sealed) (requoting : Requoting)
    (depth : Nat) :
    (layout.written depth).Exchanged requoting ((layout.requote requoting).written depth) := by
  cases layout with
  | flat node =>
      have hnode : node.Sealed := h
      have hlead := Text.Exchanged.leadAt hnode.closed_lead requoting depth
      rw [requote, written_flat, written_flat, Node.lead_requote]
      exact hlead.append (hnode.exchanged_body requoting)
  | split lead bracket children comma =>
      obtain ⟨hlead, hchildren⟩ := Node.sealed_group_iff.1 h
      have hopening := Text.Exchanged.cons (Bracket.ofChar?_opening bracket) (.nil requoting)
      have hclosing := Text.Exchanged.cons (Bracket.ofChar?_closing bracket)
        (.suffixText requoting comma)
      rw [requote, written_split, written_split]
      exact ((Text.Exchanged.leadAt hlead requoting depth).append hopening).append
        ((exchanged_writtenList hchildren requoting (depth + 1)).append
          (.cons rfl ((Text.Exchanged.spaces requoting _).append hclosing)))

theorem exchanged_writtenList {layouts : List Layout} (h : Forest.Sealed (nodes layouts))
    (requoting : Requoting) (depth : Nat) :
    (writtenList depth layouts).Exchanged requoting
      (writtenList depth (requoteList requoting layouts)) := by
  cases layouts with
  | nil => exact .nil requoting
  | cons layout rest =>
      obtain ⟨hlayout, hrest⟩ := Forest.sealed_cons_iff.1 h
      exact .cons rfl ((Text.Exchanged.spaces requoting _).append
        ((exchanged_written hlayout requoting depth).append
          (exchanged_writtenList hrest requoting depth)))

end

theorem eq_flat_of_bare {layout : Layout} (h : layout.node.Bare) :
    ∃ lead, layout = flat (.leaf lead false) := by
  cases layout with
  | split lead bracket children comma => cases h
  | flat node =>
      obtain ⟨lead, rfl⟩ := Node.eq_leaf_of_bare h
      exact ⟨lead, rfl⟩

/-- A bare leaf at the top level is written as it is. -/
theorem written_bare (lead : Text) : (flat (.leaf lead false)).written 0 = lead := by
  rw [written_flat]
  exact List.append_nil lead

/-- Exchanging spans and writing commute. -/
theorem flatMap_requoteList {layouts : List Layout} (h : Row [] (nodes layouts))
    (requoting : Requoting) :
    (requoteList requoting layouts).flatMap (written 0) =
      Text.requote requoting (layouts.flatMap (written 0)) := by
  induction layouts with
  | nil => rfl
  | cons layout rest ih =>
      have hcanonical := h.canonical layout.node List.mem_cons_self
      rw [requoteList, List.flatMap_cons, List.flatMap_cons]
      by_cases hbare : layout.node.Bare
      · -- Only the last leaf may leave a quote open, and nothing is written behind it.
        have hrest := h.eq_nil_of_bare hbare
        obtain ⟨lead, rfl⟩ := eq_flat_of_bare hbare
        cases rest with
        | nil =>
            rw [written_bare, requote, Node.requote, written_bare]
            exact (List.append_nil _).trans (congrArg _ (List.append_nil lead).symm)
        | cons other more => cases hrest
      · have hsealed := hcanonical.sealed fun _ => hbare
        have hlayout := exchanged_written hsealed requoting 0
        rw [hlayout.closed.requote_append, hlayout.eq, ih h.tail]

end Layout

/-! ## Layouts of one length -/

namespace Node

mutual

theorem length_body_requote (h : first.Even second) (node : Node) :
    (node.requote first).body.length = (node.requote second).body.length := by
  cases node with
  | leaf lead comma => rfl
  | group lead bracket children comma =>
      simp only [requote, body, List.length_cons, List.length_append,
        length_inlineList_requote h children]

theorem length_inlineList_requote (h : first.Even second) (nodes : List Node) :
    (inlineList (requoteList first nodes)).length =
      (inlineList (requoteList second nodes)).length := by
  cases nodes with
  | nil => rfl
  | cons node rest =>
      simp only [requoteList, inlineList, List.length_append, lead_requote, h.length_requote,
        length_body_requote h node, length_inlineList_requote h rest]

end

theorem fits_requote_iff (h : first.Even second) {node : Node} {budget : Int} :
    (node.requote first).Fits budget ↔ (node.requote second).Fits budget := by
  have hlead := h.length_requote node.lead
  have hbody := length_body_requote h node
  rw [fits_iff, fits_iff, inline, inline, List.length_append, List.length_append, lead_requote,
    lead_requote, hlead, hbody]

mutual

/-- Spans of one length are laid out alike. -/
theorem exists_layout (h : first.Even second) (width level : Int) (column : Nat) (node : Node) :
    ∃ layout : Layout, layout.node = node ∧
      layout.requote first = (node.requote first).layout width level column ∧
      layout.requote second = (node.requote second).layout width level column := by
  cases node with
  | leaf lead comma =>
      refine ⟨.flat (leaf lead comma), rfl, ?_, ?_⟩
      · rw [Layout.requote, requote, layout]
      · rw [Layout.requote, requote, layout]
  | group lead bracket children comma =>
      have hfits := @fits_requote_iff first second h (group lead bracket children comma)
        (width - column)
      rw [requote, requote] at hfits
      rw [requote, requote, layout, layout]
      by_cases hflat :
          (group (lead.requote first) bracket (requoteList first children) comma).Fits
            (width - column)
      · refine ⟨.flat (group lead bracket children comma), rfl, ?_, ?_⟩
        · rw [if_pos hflat, Layout.requote, requote]
        · rw [if_pos (hfits.1 hflat), Layout.requote, requote]
      · obtain ⟨layouts, hnodes, hfirst, hsecond⟩ :=
          exists_layoutList h width (level + 1) children
        refine ⟨.split lead bracket layouts comma, ?_, ?_, ?_⟩
        · rw [Layout.node, hnodes]
        · rw [if_neg hflat, Layout.requote, hfirst]
        · rw [if_neg (mt hfits.2 hflat), Layout.requote, hsecond]

theorem exists_layoutList (h : first.Even second) (width level : Int) (nodes : List Node) :
    ∃ layouts : List Layout, Layout.nodes layouts = nodes ∧
      Layout.requoteList first layouts = layoutList width level (requoteList first nodes) ∧
      Layout.requoteList second layouts = layoutList width level (requoteList second nodes) := by
  cases nodes with
  | nil =>
      refine ⟨[], rfl, ?_, ?_⟩
      · rw [requoteList, layoutList, Layout.requoteList]
      · rw [requoteList, layoutList, Layout.requoteList]
  | cons node rest =>
      obtain ⟨layout, hnode, hfirst, hsecond⟩ :=
        exists_layout h width level (Layout.indentation level) node
      obtain ⟨layouts, hnodes, hrest, hrest'⟩ := exists_layoutList h width level rest
      refine ⟨layout :: layouts, ?_, ?_, ?_⟩
      · rw [Layout.nodes, hnode, hnodes]
      · rw [requoteList, layoutList, Layout.requoteList, hfirst, hrest]
      · rw [requoteList, layoutList, Layout.requoteList, hsecond, hrest']

end

end Node

/-- Behind spans of one length the column is the same. -/
theorem Layout.foldl_columnAfter_requote (h : first.Even second) (level : Int) (column : Nat)
    (layout : Layout) :
    ((layout.requote first).segments level).foldl Segment.columnAfter column =
      ((layout.requote second).segments level).foldl Segment.columnAfter column := by
  have hlead : ∀ lead : Text, (leadAt level (lead.requote first)).length =
      (leadAt level (lead.requote second)).length := by
    intro lead
    unfold leadAt
    split
    · exact h.length_requote lead
    · rw [← Text.requote_trimLeft, ← Text.requote_trimLeft]
      exact h.length_requote _
  cases layout with
  | flat node =>
      simp only [requote, segments, List.foldl_cons, List.foldl_nil, Segment.columnAfter,
        Node.lead_requote, hlead, Node.length_body_requote h node]
  | split lead bracket children comma =>
      simp only [requote, segments, List.foldl_cons, List.foldl_append, List.foldl_nil,
        Segment.columnAfter]

namespace Forest

theorem exists_layouts (h : first.Even second) (width level : Int) (column : Nat)
    (forest : Forest) :
    ∃ layouts : List Layout, Layout.nodes layouts = forest ∧
      Layout.requoteList first layouts =
        Forest.layouts width level column (Node.requoteList first forest) ∧
      Layout.requoteList second layouts =
        Forest.layouts width level column (Node.requoteList second forest) := by
  induction forest generalizing column with
  | nil => exact ⟨[], rfl, rfl, rfl⟩
  | cons node rest ih =>
      obtain ⟨layout, hnode, hfirst, hsecond⟩ := Node.exists_layout h width level column node
      have hcolumn := Layout.foldl_columnAfter_requote h level column layout
      rw [hfirst, hsecond] at hcolumn
      obtain ⟨layouts, hnodes, hrest, hrest'⟩ := ih
        ((((node.requote first).layout width level column).segments level).foldl
          Segment.columnAfter column)
      refine ⟨layout :: layouts, ?_, ?_, ?_⟩
      · rw [Layout.nodes, hnode, hnodes]
      · rw [Node.requoteList, Forest.layouts, Layout.requoteList, hfirst, hrest]
      · rw [Node.requoteList, Forest.layouts, Layout.requoteList, hsecond, hrest', hcolumn]

/-- A canonical forest with exchanged spans is written as its layout is, with these spans
exchanged. -/
theorem render_requote {requoting : Requoting} {forest : Forest} {layouts : List Layout}
    (hcanonical : forest.Canonical) (hnodes : Layout.nodes layouts = forest) {width : Int}
    (hlayouts : Layout.requoteList requoting layouts =
      Forest.layouts width 0 0 (Node.requoteList requoting forest)) :
    Forest.render width (Node.requoteList requoting forest) =
      Text.requote requoting (layouts.flatMap (Layout.written 0)) := by
  have hrow : Row [] (Layout.nodes layouts) := by
    rw [hnodes]
    exact hcanonical
  rw [render_eq_flatMap, ← hlayouts, Layout.flatMap_requoteList hrow]

end Forest

end Bracketed
