import Bracketed.Proofs.Pass

/-!
# Depth

A text nests as deep as the groups of its forest.  The scan that counts the open
brackets sees a group when it opens, and the pass keeps it, so the depth of all that a
pass has kept grows just when the stack of open brackets is higher than ever before.
-/

namespace Bracketed

namespace Node

mutual

/-- How many groups of a node stand inside one another. -/
def depth : Node → Nat
  | leaf _ _ => 0
  | group _ _ children _ => depthList children + 1

def depthList : List Node → Nat
  | [] => 0
  | node :: rest => max node.depth (depthList rest)

end

theorem depthList_append (first second : List Node) :
    depthList (first ++ second) = max (depthList first) (depthList second) := by
  induction first with
  | nil => simp [depthList]
  | cons node rest ih => simp [depthList, ih, Nat.max_assoc]

end Node

/-- The depth of some open groups and of the nodes before them. -/
def Opened.depth : List Opened → Nat
  | [] => 0
  | group :: outer => max (depth outer) (outer.length + max (Node.depthList group.nodes) 1)

def Begun.depth : Begun → Nat
  | text _ => 0
  | group _ _ children => Node.depthList children + 1

namespace Pass

/-- The depth of all that a pass has kept so far. -/
def depth (pass : Pass) : Nat :=
  max (Opened.depth pass.opened)
    (pass.opened.length + max (Node.depthList pass.nodes) pass.begun.depth)

variable {pass after : Pass} {gap : Text} {c : Char}

theorem depthList_leafOf (text : Text) : Node.depthList (leafOf text) = 0 := by
  unfold leafOf
  split <;> simp [Node.depthList, Node.depth]

theorem depthList_settled (pass : Pass) :
    Node.depthList pass.settled = max (Node.depthList pass.nodes) pass.begun.depth := by
  unfold settled
  cases pass.begun with
  | text lead => simp [Begun.depth]
  | group lead bracket children =>
      simp [Begun.depth, Node.depthList_append, Node.depthList, Node.depth]

theorem length_brackets_le_depth (pass : Pass) : pass.brackets.length ≤ pass.depth := by
  have hlength : pass.brackets.length = pass.opened.length := List.length_map ..
  rw [hlength, depth]
  exact Nat.le_trans (Nat.le_add_right _ _) (Nat.le_max_right _ _)

/-- A step goes as deep as the brackets that it leaves open. -/
theorem depth_step (h : pass.step gap c = some after) :
    after.depth = max pass.depth after.opened.length := by
  have hsettled := pass.depthList_settled
  rcases step_cases h with ⟨bracket, -, rfl⟩ | ⟨group, outer, -, hopened, -, rfl⟩ |
    ⟨-, hcomma⟩ | ⟨-, rfl⟩
  · simp only [depth, takeOpening, Opened.depth, Begun.depth, Node.depthList, List.length_cons,
      hsettled]
    grind
  · simp only [depth, hopened, Opened.depth, Begun.depth, Node.depthList_append,
      depthList_leafOf, hsettled, List.length_cons]
    grind
  · rcases takeComma_cases hcomma with
      ⟨lead, hbegun, -, rfl⟩ | ⟨lead, bracket, children, hbegun, rfl⟩
    · simp only [depth, hbegun, Begun.depth, Node.depthList_append, Node.depthList, Node.depth]
      grind
    · simp only [depth, hbegun, Begun.depth, Node.depthList_append, Node.depthList, Node.depth]
      grind
  · simp only [depth, takePlain, Begun.depth, hsettled]
    grind

theorem depth_finish {forest : Forest} (h : pass.finish gap = .ok forest) :
    Node.depthList forest = pass.depth := by
  obtain ⟨hopened, rfl⟩ := eq_of_finish h
  rw [Node.depthList_append, depthList_leafOf, depthList_settled, depth, hopened]
  simp [Opened.depth]

/-- A whole pass goes as deep as its brackets nest. -/
theorem depth_run {trail : Trail} {forest : Forest} (h : pass.run trail = .ok forest) :
    Node.depthList forest = max pass.depth (Bracket.peak pass.brackets trail.chars) := by
  induction trail generalizing pass with
  | stop gap =>
      rw [depth_finish h, Trail.chars, Bracket.peak,
        Nat.max_eq_left pass.length_brackets_le_depth]
  | step gap c next ih =>
      unfold run at h
      split at h
      · cases h
      · next after hstep =>
          have hbrackets := brackets_step hstep
          have hlength := pass.length_brackets_le_depth
          have hpeak := Bracket.length_le_peak after.brackets next.chars
          have hafter : after.brackets.length = after.opened.length := List.length_map ..
          rw [ih h, depth_step hstep, Trail.chars, Bracket.peak, ← hbrackets]
          omega

end Pass

/-- A text nests as deep as its forest. -/
theorem Text.nesting_eq_depthList {text : Text} {forest : Forest}
    (h : Pass.initial.run (Trail.ofText text) = .ok forest) :
    text.nesting = Node.depthList forest := by
  have hdepth := Pass.depth_run h
  rw [hdepth]
  exact (Nat.max_eq_right (Nat.zero_le _)).symm

end Bracketed
