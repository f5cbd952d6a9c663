import Bracketed.Proofs.Agreement
import Bracketed.Proofs.Canonical
import Bracketed.Proofs.Requoting

/-!
# Requoted forests

A pass never looks into a quoted span.  It asks whether some text is empty, and an exchanged
span is no more empty than the one that it stands for.  So a pass over a text with exchanged
spans does the same steps and comes to the same forest, with the spans exchanged in its leads.
-/

namespace Bracketed

namespace Node

mutual

/-- The node with every quoted span of its leads exchanged. -/
def requote (requoting : Requoting) : Node → Node
  | leaf lead comma => leaf (lead.requote requoting) comma
  | group lead bracket children comma =>
      group (lead.requote requoting) bracket (requoteList requoting children) comma

def requoteList (requoting : Requoting) : List Node → List Node
  | [] => []
  | node :: rest => node.requote requoting :: requoteList requoting rest

end

variable {requoting : Requoting}

theorem requoteList_append (first second : List Node) :
    requoteList requoting (first ++ second) =
      requoteList requoting first ++ requoteList requoting second := by
  induction first with
  | nil => rfl
  | cons node rest ih => simp only [List.cons_append, requoteList, ih]

theorem requoteList_eq_nil_iff {nodes : List Node} :
    requoteList requoting nodes = [] ↔ nodes = [] := by
  cases nodes with
  | nil => exact Iff.rfl
  | cons node rest => exact iff_of_false (List.cons_ne_nil _ _) (List.cons_ne_nil _ _)

end Node

/-! ## One pass -/

def Opened.requote (requoting : Requoting) (group : Opened) : Opened :=
  ⟨Node.requoteList requoting group.nodes, group.lead.requote requoting, group.bracket⟩

def Begun.requote (requoting : Requoting) : Begun → Begun
  | text lead => text (lead.requote requoting)
  | group lead bracket children =>
      group (lead.requote requoting) bracket (Node.requoteList requoting children)

namespace Pass

/-- The pass that has read exchanged spans. -/
def requote (requoting : Requoting) (pass : Pass) : Pass :=
  ⟨pass.opened.map (Opened.requote requoting), Node.requoteList requoting pass.nodes,
    pass.begun.requote requoting⟩

variable {pass : Pass} {gap : Text} {c : Char}

theorem brackets_requote (requoting : Requoting) (pass : Pass) :
    (pass.requote requoting).brackets = pass.brackets := by
  rw [brackets, requote, List.map_map]
  rfl

theorem settled_requote (requoting : Requoting) (pass : Pass) :
    (pass.requote requoting).settled = Node.requoteList requoting pass.settled := by
  obtain ⟨opened, nodes, begun⟩ := pass
  cases begun with
  | text lead => rfl
  | group lead bracket children =>
      simp only [settled, requote, Begun.requote, Node.requoteList_append, Node.requoteList,
        Node.requote]

theorem leafOf_requote (requoting : Requoting) (text : Text) :
    leafOf (text.requote requoting) = Node.requoteList requoting (leafOf text) := by
  by_cases hnil : text = []
  · subst hnil
    rfl
  · rw [leafOf, leafOf, if_neg hnil, if_neg (mt Text.requote_eq_nil_iff.1 hnil)]
    rfl

namespace Tidy

theorem closed_begun (h : pass.Tidy) {lead : Text} (hbegun : pass.begun = .text lead) :
    lead.Closed := by
  have htidy := h.begun
  rw [hbegun] at htidy
  exact htidy.2.1

theorem pending_requote (h : pass.Tidy) (requoting : Requoting) (gap : Text) :
    (pass.requote requoting).pending (gap.requote requoting) =
      (pass.pending gap).requote requoting := by
  unfold pending
  cases hbegun : pass.begun with
  | text lead =>
      simp only [requote, hbegun, Begun.requote, (h.closed_begun hbegun).requote_append requoting]
  | group lead bracket children => simp only [requote, hbegun, Begun.requote]

theorem takeComma_requote (h : pass.Tidy) (requoting : Requoting) (gap : Text) :
    (pass.requote requoting).takeComma (gap.requote requoting) =
      (pass.takeComma gap).map (Pass.requote requoting) := by
  unfold takeComma
  cases hbegun : pass.begun with
  | text lead =>
      have hlead := (h.closed_begun hbegun).requote_append requoting gap
      simp only [requote, hbegun, Begun.requote, ← hlead, Text.requote_eq_nil_iff]
      split
      · rfl
      · simp only [Option.map_some, requote, Node.requoteList_append]
        rfl
  | group lead bracket children =>
      simp only [requote, hbegun, Begun.requote, Option.map_some, Node.requoteList_append]
      rfl

/-- A step does the same with exchanged spans. -/
theorem step_requote (h : pass.Tidy) (hclosed : gap.Closed) (hmark : Mark.ofChar? c = none)
    (requoting : Requoting) :
    (pass.requote requoting).step (gap.requote requoting) c =
      (pass.step gap c).map (Pass.requote requoting) := by
  have hsettled := settled_requote requoting pass
  have hpending := h.pending_requote requoting gap
  unfold Pass.step
  rw [brackets_requote]
  cases Role.of pass.brackets c with
  | opening bracket =>
      simp only [takeOpening, hsettled, hpending, Option.map_some]
      rfl
  | closing =>
      have hleaf := leafOf_requote requoting (pass.pending gap)
      simp only [takeClosing, hsettled, hpending, Option.map_some, hleaf,
        ← Node.requoteList_append]
      cases hopened : pass.opened with
      | nil =>
          simp only [requote, hopened]
          rfl
      | cons group outer =>
          simp only [requote, hopened]
          rfl
  | comma => exact h.takeComma_requote requoting gap
  | plain =>
      have hchar := (h.closed_pending hclosed).requote_append requoting [c]
      rw [Text.requote_singleton hmark] at hchar
      simp only [takePlain, hsettled, hpending, Option.map_some, ← hchar]
      rfl

theorem ending_requote (h : pass.Tidy) (requoting : Requoting) (gap : Text) :
    (pass.requote requoting).ending (gap.requote requoting) =
      (pass.ending gap).requote requoting := by
  unfold ending
  cases hbegun : pass.begun with
  | text lead =>
      have hlead := (h.closed_begun hbegun).requote_append requoting gap
      simp only [requote, hbegun, Begun.requote, ← hlead, Text.requote_eq_nil_iff, ne_eq,
        Node.requoteList_eq_nil_iff]
      split <;> rfl
  | group lead bracket children =>
      simp only [requote, hbegun, Begun.requote]
      rfl

theorem finish_requote (h : pass.Tidy) (requoting : Requoting) (gap : Text) :
    ((pass.requote requoting).finish (gap.requote requoting)).toOption =
      (pass.finish gap).toOption.map (Node.requoteList requoting) := by
  have hforest : (pass.requote requoting).settled ++
      leafOf ((pass.requote requoting).ending (gap.requote requoting)) =
        Node.requoteList requoting (pass.settled ++ leafOf (pass.ending gap)) := by
    rw [settled_requote, h.ending_requote, leafOf_requote, Node.requoteList_append]
  unfold Pass.finish
  rw [hforest]
  cases hopened : pass.opened with
  | cons group outer =>
      simp only [requote, hopened]
      rfl
  | nil =>
      simp only [requote, hopened]
      cases pass.settled ++ leafOf (pass.ending gap) with
      | nil => rfl
      | cons node rest => rfl

/-- A pass over exchanged spans comes to the same forest with exchanged spans. -/
theorem run_requote (h : pass.Tidy) {trail : Trail} (htrail : trail.Regular .outside)
    (requoting : Requoting) :
    ((pass.requote requoting).run (trail.requote requoting)).toOption =
      (pass.run trail).toOption.map (Node.requoteList requoting) := by
  induction trail generalizing pass with
  | stop gap => exact h.finish_requote requoting gap
  | step gap c next ih =>
      have hstep := h.step_requote htrail.closed htrail.unquoted requoting
      rw [Trail.requote, Pass.run, Pass.run, hstep]
      cases hafter : pass.step gap c with
      | none => rfl
      | some after =>
          exact ih (h.step htrail.quoted htrail.closed htrail.unquoted hafter) htrail.next

end Tidy

end Pass

/-! ## Reading -/

namespace Forest

variable {limit : Nat} {text : Text} {requoting : Requoting}

theorem forest_eq_run {reading : Reading Forest} (h : Forest.read limit text = .ok reading) :
    reading.forest = (Pass.initial.run (Trail.ofText text)).toOption.getD [] := by
  cases tells_of_read h with
  | refused run_eq =>
      rw [run_eq]
      rfl
  | read run_eq =>
      rw [run_eq]
      rfl

/-- Exchanging spans and reading commute. -/
theorem forest_requote {reading requoted : Reading Forest} (h : Forest.read limit text = .ok reading)
    (hrequoted : Forest.read limit (text.requote requoting) = .ok requoted) :
    requoted.forest = Node.requoteList requoting reading.forest := by
  have hrun := Pass.tidy_initial.run_requote (Trail.regular_ofText text) requoting
  rw [forest_eq_run h, forest_eq_run hrequoted, Text.ofText_requote]
  change ((Pass.initial.requote requoting).run _).toOption.getD [] = _
  rw [hrun]
  cases (Pass.initial.run (Trail.ofText text)).toOption <;> rfl

end Forest

end Bracketed
