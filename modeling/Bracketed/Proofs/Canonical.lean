import Mathlib.Data.List.Chain
import Bracketed.Proofs.Pass
import Bracketed.Proofs.Quoting

/-!
# Canonical forests

A forest is canonical if its leads and leaves can stand where they do without being
taken for anything else: no text holds an unquoted character that would end its node or
open a group, a leaf has text, and nodes side by side keep apart.  Every forest that is
read is canonical.  The invariant of the pass that reads it says so of all the nodes
complete so far, and of the text behind them.
-/

namespace Bracketed

/-- Text that is plain throughout inside some open brackets. -/
def Text.Plain (opened : List Bracket) (text : Text) : Prop :=
  ∀ c ∈ text.unquoted, Role.of opened c = .plain

instance (opened : List Bracket) (text : Text) : Decidable (text.Plain opened) :=
  List.decidableBAll _ text.unquoted

namespace Node

/-- A leaf without a comma, which only a closing bracket or the end stops. -/
def Bare : Node → Prop
  | leaf _ comma => comma = false
  | group _ _ _ _ => False

theorem eq_leaf_of_bare {node : Node} (h : node.Bare) : ∃ lead, node = leaf lead false := by
  cases node with
  | leaf lead comma =>
      cases h
      exact ⟨lead, rfl⟩
  | group lead bracket children comma => cases h

/-- Two nodes keep apart side by side. -/
structure Links (opened : List Bracket) (first second : Node) : Prop where
  not_bare : ¬ first.Bare
  /-- A quoted text between a group and a comma would be lost. -/
  comma : first.comma = false → ∀ lead, second = leaf lead true → ¬ lead.Quoted
  /-- So would one before the end. -/
  ending : opened = [] → ∀ lead, second = leaf lead false → ¬ lead.Quoted

namespace Links

variable {opened : List Bracket} {first : Node} {lead : Text}

theorem group (h : ¬ first.Bare) (lead : Text) (bracket : Bracket) (children : List Node)
    (comma : Bool) : Links opened first (.group lead bracket children comma) where
  not_bare := h
  comma := by
    intro _ lead' hleaf
    cases hleaf
  ending := by
    intro _ lead' hleaf
    cases hleaf

theorem leaf_comma (h : ¬ first.Bare) (hquoted : first.comma = false → ¬ lead.Quoted) :
    Links opened first (.leaf lead true) where
  not_bare := h
  comma := by
    intro hbare lead' hleaf
    cases hleaf
    exact hquoted hbare
  ending := by
    intro _ lead' hleaf
    cases hleaf

theorem bare_leaf (h : ¬ first.Bare) (hquoted : opened = [] → ¬ lead.Quoted) :
    Links opened first (.leaf lead false) where
  not_bare := h
  comma := by
    intro _ lead' hleaf
    cases hleaf
  ending := by
    intro hroot lead' hleaf
    cases hleaf
    exact hquoted hroot

end Links

inductive Canonical : List Bracket → Node → Prop
  /-- Only the text at the very end may leave a quote open. -/
  | leaf {opened : List Bracket} {lead : Text} {comma : Bool} (ne_nil : lead ≠ [])
      (plain : lead.Plain opened) (closed : lead.Closed ∨ (opened = [] ∧ comma = false)) :
      Canonical opened (.leaf lead comma)
  | group {opened : List Bracket} {lead : Text} {bracket : Bracket} {children : List Node}
      {comma : Bool} (plain : lead.Plain opened) (closed : lead.Closed)
      (children_canonical : ∀ child ∈ children, Canonical (bracket :: opened) child)
      (children_link : children.IsChain (Links (bracket :: opened))) :
      Canonical opened (.group lead bracket children comma)

end Node

/-- Canonical nodes side by side. -/
structure Row (opened : List Bracket) (nodes : List Node) : Prop where
  canonical : ∀ node ∈ nodes, node.Canonical opened
  links : nodes.IsChain (Node.Links opened)

def Forest.Canonical (forest : Forest) : Prop :=
  Row [] forest

/-- No node at the end but one that another may follow. -/
def Ready (nodes : List Node) : Prop :=
  ∀ last ∈ nodes.getLast?, ¬ last.Bare

namespace Text

variable {opened : List Bracket} {first second text : Text}

theorem plain_nil (opened : List Bracket) : Plain opened [] := by
  intro c hmem
  cases hmem

theorem Quoted.plain (h : text.Quoted) (opened : List Bracket) : text.Plain opened := by
  intro c hmem
  rw [h] at hmem
  cases hmem

theorem Plain.append (hclosed : first.Closed) (h : first.Plain opened)
    (h' : second.Plain opened) : (first ++ second).Plain opened := by
  intro c hmem
  rw [hclosed.unquoted_append] at hmem
  rcases List.mem_append.1 hmem with hfirst | hsecond
  · exact h c hfirst
  · exact h' c hsecond

theorem plain_singleton {c : Char} (hmark : Mark.ofChar? c = none)
    (h : Role.of opened c = .plain) : Plain opened [c] := by
  intro c' hmem
  rw [unquoted_cons hmark] at hmem
  rw [List.mem_singleton.1 hmem]
  exact h

theorem not_quoted_append (hclosed : first.Closed) (h : ¬ first.Quoted ∨ ¬ second.Quoted) :
    ¬ (first ++ second).Quoted := by
  intro hquoted
  rw [Quoted, hclosed.unquoted_append, List.append_eq_nil_iff] at hquoted
  rcases h with hfirst | hsecond
  · exact hfirst hquoted.1
  · exact hsecond hquoted.2

theorem not_quoted_singleton {c : Char} (hmark : Mark.ofChar? c = none) : ¬ Quoted [c] := by
  intro hquoted
  obtain ⟨mark, hsome⟩ := hquoted.head_mark
  rw [hmark] at hsome
  cases hsome

end Text

namespace Row

variable {opened : List Bracket} {nodes rest : List Node} {node : Node}

theorem nil (opened : List Bracket) : Row opened [] where
  canonical := by
    intro node hmem
    cases hmem
  links := .nil

/-- One more node before the others. -/
theorem cons (hnode : node.Canonical opened) (hrest : Row opened rest)
    (hlinks : ∀ next ∈ rest.head?, Node.Links opened node next) :
    Row opened (node :: rest) where
  canonical := by
    intro node' hmem
    rcases List.mem_cons.1 hmem with rfl | hmem
    · exact hnode
    · exact hrest.canonical node' hmem
  links := hrest.links.cons hlinks

theorem tail (h : Row opened (node :: rest)) : Row opened rest where
  canonical := fun node' hmem => h.canonical node' (List.mem_cons_of_mem _ hmem)
  links := h.links.tail

/-- A bare leaf is the last of its row. -/
theorem eq_nil_of_bare (h : Row opened (node :: rest)) (hbare : node.Bare) : rest = [] := by
  cases rest with
  | nil => rfl
  | cons next more =>
      have hlinks := h.links.rel_head?
      exact absurd hbare (hlinks rfl).not_bare

/-- One more node at the end. -/
theorem concat (h : Row opened nodes) (hnode : node.Canonical opened)
    (hlinks : ∀ last ∈ nodes.getLast?, Node.Links opened last node) :
    Row opened (nodes ++ [node]) where
  canonical := by
    intro node' hmem
    rcases List.mem_append.1 hmem with hold | hnew
    · exact h.canonical node' hold
    · rw [List.mem_singleton.1 hnew]
      exact hnode
  links := by
    refine h.links.append (.singleton node) ?_
    intro last hlast next hnext
    cases hnext
    exact hlinks last hlast

theorem concat_group (h : Row opened nodes) (hready : Ready nodes) {lead : Text}
    {bracket : Bracket} {children : List Node} (comma : Bool)
    (hnode : (Node.group lead bracket children comma).Canonical opened) :
    Row opened (nodes ++ [.group lead bracket children comma]) := by
  refine h.concat hnode ?_
  intro last hlast
  exact .group (hready last hlast) lead bracket children comma

end Row

theorem ready_concat {nodes : List Node} {node : Node} (h : ¬ node.Bare) :
    Ready (nodes ++ [node]) := by
  intro last hlast
  rw [List.getLast?_concat] at hlast
  cases hlast
  exact h

/-! ## The invariant of a pass -/

/-- The nodes before an open group and its lead are canonical so far. -/
structure Opened.Tidy (outer : List Bracket) (group : Opened) : Prop where
  row : Row outer group.nodes
  ready : Ready group.nodes
  plain : group.lead.Plain outer
  closed : group.lead.Closed

def Opened.AllTidy : List Opened → Prop
  | [] => True
  | group :: outer => group.Tidy (outer.map Opened.bracket) ∧ AllTidy outer

/-- Text that was begun begins behind a comma, if at all, and then is not only quoted. -/
def Begun.Tidy (opened : List Bracket) (nodes : List Node) : Begun → Prop
  | text lead =>
      lead.Plain opened ∧ lead.Closed ∧ (lead ≠ [] → ¬ lead.Quoted) ∧
        (lead = [] → ∀ last ∈ nodes.getLast?, last.comma = true)
  | group lead bracket children =>
      lead.Plain opened ∧ lead.Closed ∧ Row (bracket :: opened) children

structure Pass.Tidy (pass : Pass) : Prop where
  opened : Opened.AllTidy pass.opened
  row : Row pass.brackets pass.nodes
  ready : Ready pass.nodes
  begun : pass.begun.Tidy pass.brackets pass.nodes

namespace Pass

variable {pass after : Pass} {gap : Text} {c : Char}

theorem tidy_initial : initial.Tidy where
  opened := trivial
  row := Row.nil []
  ready := by
    intro last hlast
    cases hlast
  begun := by
    refine ⟨Text.plain_nil _, Text.closed_nil, fun h => absurd rfl h, ?_⟩
    intro _ last hlast
    cases hlast

namespace Tidy

theorem settled (h : pass.Tidy) : Row pass.brackets pass.settled ∧ Ready pass.settled := by
  have hbegun := h.begun
  unfold Pass.settled
  cases hpass : pass.begun with
  | text lead => exact ⟨h.row, h.ready⟩
  | group lead bracket children =>
      rw [hpass] at hbegun
      obtain ⟨hplain, hclosed, hchildren⟩ := hbegun
      refine ⟨h.row.concat_group h.ready false ?_, ready_concat id⟩
      exact .group hplain hclosed hchildren.canonical hchildren.links

theorem plain_pending (h : pass.Tidy) (hgap : gap.Quoted) :
    (pass.pending gap).Plain pass.brackets := by
  have hbegun := h.begun
  unfold pending
  cases hpass : pass.begun with
  | text lead =>
      rw [hpass] at hbegun
      exact Text.Plain.append hbegun.2.1 hbegun.1 (hgap.plain _)
  | group lead bracket children => exact hgap.plain _

theorem closed_pending (h : pass.Tidy) (hgap : gap.Closed) : (pass.pending gap).Closed := by
  have hbegun := h.begun
  unfold pending
  cases hpass : pass.begun with
  | text lead =>
      rw [hpass] at hbegun
      exact Text.Closed.append hbegun.2.1 hgap
  | group lead bracket children => exact hgap

/-- The text before a closing bracket becomes a last leaf. -/
theorem row_closing (h : pass.Tidy) (hquoted : gap.Quoted) (hclosed : gap.Closed)
    (hopened : pass.opened ≠ []) :
    Row pass.brackets (pass.settled ++ leafOf (pass.pending gap)) := by
  obtain ⟨hrow, hready⟩ := h.settled
  unfold leafOf
  split
  · rw [List.append_nil]
    exact hrow
  · next hne =>
      refine hrow.concat (.leaf hne (h.plain_pending hquoted) (.inl (h.closed_pending hclosed))) ?_
      intro last hlast
      exact .bare_leaf (hready last hlast) fun hroot =>
        absurd (List.map_eq_nil_iff.1 hroot) hopened

theorem comma (h : pass.Tidy) (hquoted : gap.Quoted) (hclosed : gap.Closed)
    (hcomma : pass.takeComma gap = some after) : after.Tidy := by
  have hbegun := h.begun
  -- The new node ends in a comma, and nothing is begun behind it.
  have hafter : ∀ node : Node, node.comma = true → ¬ node.Bare →
      Row pass.brackets (pass.nodes ++ [node]) →
      Tidy ⟨pass.opened, pass.nodes ++ [node], .text []⟩ := by
    intro node hnode hbare hrow
    refine ⟨h.opened, hrow, ready_concat hbare, Text.plain_nil _, Text.closed_nil,
      fun hne => absurd rfl hne, ?_⟩
    intro _ last hlast
    rw [List.getLast?_concat] at hlast
    cases hlast
    exact hnode
  rcases takeComma_cases hcomma with
    ⟨lead, hpass, hne, rfl⟩ | ⟨lead, bracket, children, hpass, rfl⟩
  · rw [hpass] at hbegun
    obtain ⟨hplain, hlead, hnot_quoted, hlast_comma⟩ := hbegun
    refine hafter _ rfl (by simp [Node.Bare]) ?_
    have hcanonical : (Node.leaf (lead ++ gap) true).Canonical pass.brackets :=
      .leaf hne (hplain.append hlead (hquoted.plain _)) (.inl (hlead.append hclosed))
    refine h.row.concat hcanonical ?_
    intro last hlast
    apply Node.Links.leaf_comma (h.ready last hlast)
    intro hbare
    refine Text.not_quoted_append hlead (.inl (hnot_quoted ?_))
    intro hnil
    rw [hlast_comma hnil last hlast] at hbare
    cases hbare
  · rw [hpass] at hbegun
    obtain ⟨hplain, hlead, hchildren⟩ := hbegun
    refine hafter _ rfl id (h.row.concat_group h.ready true ?_)
    exact .group hplain hlead hchildren.canonical hchildren.links

theorem step (h : pass.Tidy) (hquoted : gap.Quoted) (hclosed : gap.Closed)
    (hmark : Mark.ofChar? c = none) (hstep : pass.step gap c = some after) : after.Tidy := by
  obtain ⟨hrow, hready⟩ := h.settled
  have hplain := h.plain_pending hquoted
  have hpending := h.closed_pending hclosed
  rcases step_cases hstep with ⟨bracket, -, rfl⟩ | ⟨group, outer, -, hopened, -, rfl⟩ |
    ⟨-, hcomma⟩ | ⟨hrole, rfl⟩
  · refine ⟨⟨⟨hrow, hready, hplain, hpending⟩, h.opened⟩, Row.nil _, ?_, Text.plain_nil _,
      Text.closed_nil, fun hne => absurd rfl hne, ?_⟩
    · intro last hlast
      cases hlast
    · intro _ last hlast
      cases hlast
  · have htidy := h.opened
    have hchildren := h.row_closing hquoted hclosed (by simp [hopened])
    rw [hopened] at htidy
    obtain ⟨hgroup, houter⟩ := htidy
    have hbrackets : pass.brackets = group.bracket :: outer.map Opened.bracket := by
      rw [brackets, hopened, List.map_cons]
    rw [hbrackets] at hchildren
    exact ⟨houter, hgroup.row, hgroup.ready, hgroup.plain, hgroup.closed, hchildren⟩
  · exact h.comma hquoted hclosed hcomma
  · refine ⟨h.opened, hrow, hready, ?_, hpending.append (Text.closed_singleton hmark), ?_, ?_⟩
    · exact hplain.append hpending (Text.plain_singleton hmark hrole)
    · intro _
      exact Text.not_quoted_append hpending (.inr (Text.not_quoted_singleton hmark))
    · intro hnil
      simp at hnil

theorem finish {forest : Forest} (h : pass.Tidy) (hquoted : gap.Quoted)
    (hfinish : pass.finish gap = .ok forest) : forest.Canonical := by
  obtain ⟨hopened, rfl⟩ := eq_of_finish hfinish
  obtain ⟨hrow, hready⟩ := h.settled
  have hbegun := h.begun
  have hbrackets : pass.brackets = [] := by rw [brackets, hopened, List.map_nil]
  rw [hbrackets] at hrow hbegun
  unfold leafOf
  split
  · rw [List.append_nil]
    exact hrow
  · next hne =>
      cases hpass : pass.begun with
      | group lead bracket children => exact absurd (by simp [ending, hpass]) hne
      | text lead =>
          rw [hpass] at hbegun
          obtain ⟨hplain, hlead, hnot_quoted, -⟩ := hbegun
          simp only [ending, hpass] at hne ⊢
          split at hne
          · exact absurd rfl hne
          · next hkept =>
              rw [if_neg hkept]
              have hcanonical : (Node.leaf (lead ++ gap) false).Canonical [] :=
                .leaf hne (hplain.append hlead (hquoted.plain _)) (.inr ⟨rfl, rfl⟩)
              refine hrow.concat hcanonical ?_
              intro last hlast
              apply Node.Links.bare_leaf (hready last hlast)
              intro _
              refine Text.not_quoted_append hlead (.inl (hnot_quoted ?_))
              intro hnil
              refine hkept ⟨hnil, ?_⟩
              intro hnodes
              simp [Pass.settled, hpass, hnodes] at hlast

/-- A tidy pass comes to a canonical forest. -/
theorem run {trail : Trail} {forest : Forest} (h : pass.Tidy) (htrail : trail.Regular .outside)
    (hrun : pass.run trail = .ok forest) : forest.Canonical := by
  induction trail generalizing pass with
  | stop gap => exact h.finish htrail.quoted_stop hrun
  | step gap c next ih =>
      unfold Pass.run at hrun
      split at hrun
      · cases hrun
      · next after hstep =>
          exact ih (h.step htrail.quoted htrail.closed htrail.unquoted hstep) htrail.next hrun

end Tidy

end Pass

theorem Forest.canonical_of_run {text : Text} {forest : Forest}
    (h : Pass.initial.run (Trail.ofText text) = .ok forest) : forest.Canonical :=
  Pass.tidy_initial.run (Trail.regular_ofText text) h

end Bracketed
