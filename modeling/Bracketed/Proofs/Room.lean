import Bracketed.Layout

/-!
# Room is length

The count of room stops early and goes from the outside in, yet it says what the written
line says: a node fits just when its line is no longer than the columns there are, and then
it leaves what the line does not take.
-/

namespace Bracketed.Node

theorem length_inlineList_cons (node : Node) (rest : List Node) :
    (inlineList (node :: rest)).length = node.inline.length + (inlineList rest).length := by
  rw [inlineList, inline, List.length_append]

mutual

theorem remaining_of_le {node : Node} {budget : Int} (h : node.inline.length ≤ budget) :
    node.remaining budget = budget - node.inline.length := by
  cases node with
  | leaf lead comma => rw [remaining, cost_leaf_eq_length]
  | group lead bracket children comma =>
      have hcost := cost_group_add_length lead bracket children comma
      have hchildren : (inlineList children).length ≤
          budget - (group lead bracket children comma).cost := by omega
      rw [remaining, if_pos (by omega), remainingList_of_le hchildren]
      omega

theorem remainingList_of_le {nodes : List Node} {budget : Int}
    (h : (inlineList nodes).length ≤ budget) :
    remainingList nodes budget = budget - (inlineList nodes).length := by
  cases nodes with
  | nil => simp [remainingList, inlineList]
  | cons node rest =>
      have hlength := length_inlineList_cons node rest
      have hnode : node.remaining budget = budget - node.inline.length :=
        remaining_of_le (by omega)
      rw [remainingList, hnode, if_neg (by omega), remainingList_of_le (by omega)]
      omega

end

mutual

theorem remaining_neg {node : Node} {budget : Int} (h : budget < node.inline.length) :
    node.remaining budget < 0 := by
  cases node with
  | leaf lead comma =>
      rw [remaining, cost_leaf_eq_length]
      omega
  | group lead bracket children comma =>
      have hcost := cost_group_add_length lead bracket children comma
      have hchildren : budget - (group lead bracket children comma).cost <
          (inlineList children).length := by omega
      rw [remaining]
      split
      · exact remainingList_neg hchildren
      · next hleft => exact Int.not_le.1 hleft

theorem remainingList_neg {nodes : List Node} {budget : Int}
    (h : budget < (inlineList nodes).length) : remainingList nodes budget < 0 := by
  cases nodes with
  | nil => exact h
  | cons node rest =>
      have hlength := length_inlineList_cons node rest
      by_cases hnode : node.inline.length ≤ budget
      · rw [remainingList, remaining_of_le hnode, if_neg (by omega)]
        exact remainingList_neg (by omega)
      · have hleft := remaining_neg (Int.not_le.1 hnode)
        rw [remainingList, if_pos hleft]
        exact hleft

end

/-- A node fits just when its line does. -/
theorem fits_iff {node : Node} {budget : Int} :
    node.Fits budget ↔ node.inline.length ≤ budget := by
  constructor
  · intro hfits
    refine Int.not_lt.1 fun hlong => ?_
    exact Int.not_le.2 (remaining_neg hlong) hfits
  · intro hlength
    rw [Fits, remaining_of_le hlength]
    omega

end Bracketed.Node
