import Bracketed.Layout
import Bracketed.Proofs.Room

/-!
# Running totals

The count of room visits the nodes from the outside in and from left to right.  Listed for
every node, whether or not it is still visited, what is left behind it gives the running
totals of the columns.  The count comes to the first of them that is negative, and to the
last one if none is.
-/

namespace Bracketed

namespace Node

mutual

/-- A node and all nodes inside it, each before those inside it. -/
def preorder : Node → List Node
  | leaf lead comma => [leaf lead comma]
  | group lead bracket children comma =>
      group lead bracket children comma :: preorderList children

def preorderList : List Node → List Node
  | [] => []
  | node :: rest => node.preorder ++ preorderList rest

end

/-- What is left of the columns behind each of some nodes. -/
def totals (budget : Int) : List Node → List Int
  | [] => []
  | node :: rest => (budget - node.cost) :: totals (budget - node.cost) rest

/-- What is left of the columns behind some nodes, if the count stops at the first negative
total. -/
def settle (budget : Int) (nodes : List Node) : Int :=
  (((totals budget nodes).find? (· < 0)).or (totals budget nodes).getLast?).getD budget

variable {budget : Int} {node : Node}

theorem settle_nil (budget : Int) : settle budget [] = budget :=
  rfl

theorem settle_cons_of_neg (h : budget - node.cost < 0) (rest : List Node) :
    settle budget (node :: rest) = budget - node.cost := by
  simp [settle, totals, h]

theorem settle_cons_of_nonneg (h : 0 ≤ budget - node.cost) (rest : List Node) :
    settle budget (node :: rest) = settle (budget - node.cost) rest := by
  rw [settle, settle, totals, List.find?_cons_of_neg (by simpa using h), List.getLast?_cons]
  cases (totals (budget - node.cost) rest).find? (· < 0) with
  | some total => rfl
  | none => rfl

/-- The count goes on behind some nodes if it did not stop among them. -/
theorem settle_append (h : 0 ≤ budget) (nodes more : List Node) :
    settle budget (nodes ++ more) =
      if settle budget nodes < 0 then settle budget nodes
      else settle (settle budget nodes) more := by
  induction nodes generalizing budget with
  | nil => rw [List.nil_append, settle_nil, if_neg (Int.not_lt.2 h)]
  | cons node rest ih =>
      by_cases hneg : budget - node.cost < 0
      · rw [List.cons_append, settle_cons_of_neg hneg, settle_cons_of_neg hneg, if_pos hneg]
      · have hnonneg := Int.not_lt.1 hneg
        rw [List.cons_append, settle_cons_of_nonneg hnonneg, settle_cons_of_nonneg hnonneg,
          ih hnonneg]

mutual

theorem settle_preorder (budget : Int) (node : Node) :
    settle budget node.preorder = node.remaining budget := by
  cases node with
  | leaf lead comma =>
      rw [preorder, remaining]
      by_cases hneg : budget - (leaf lead comma).cost < 0
      · rw [settle_cons_of_neg hneg]
      · rw [settle_cons_of_nonneg (Int.not_lt.1 hneg), settle_nil]
  | group lead bracket children comma =>
      rw [preorder, remaining]
      by_cases hneg : budget - (group lead bracket children comma).cost < 0
      · rw [settle_cons_of_neg hneg, if_neg (Int.not_le.2 hneg)]
      · have hnonneg := Int.not_lt.1 hneg
        rw [settle_cons_of_nonneg hnonneg, if_pos hnonneg, settle_preorderList hnonneg]

theorem settle_preorderList {budget : Int} (h : 0 ≤ budget) (nodes : List Node) :
    settle budget (preorderList nodes) = remainingList nodes budget := by
  cases nodes with
  | nil => rw [preorderList, remainingList, settle_nil]
  | cons node rest =>
      rw [preorderList, remainingList, settle_append h, settle_preorder budget node]
      by_cases hneg : node.remaining budget < 0
      · rw [if_pos hneg, if_pos hneg]
      · rw [if_neg hneg, if_neg hneg, settle_preorderList (Int.not_lt.1 hneg)]

end

theorem totals_preorder_ne_nil (budget : Int) (node : Node) :
    totals budget node.preorder ≠ [] := by
  cases node with
  | leaf lead comma =>
      rw [preorder, totals]
      exact List.cons_ne_nil _ _
  | group lead bracket children comma =>
      rw [preorder, totals]
      exact List.cons_ne_nil _ _

/-- The count of room comes to the first negative one of the running totals, or to the last of
them.  So a node fits just when what is written of it on one line has no more characters than
there are columns, and then the count comes to the columns that are left. -/
theorem remaining_eq_total (node : Node) (budget : Int) :
    ((totals budget node.preorder).find? (· < 0)).or (totals budget node.preorder).getLast? =
        some (node.remaining budget) ∧
      ∀ output : Output, ∃ written, (output.renderInline [node]).text = output.text ++ written ∧
        (node.Fits budget ↔ written.length ≤ budget) ∧
        (node.Fits budget → node.remaining budget = budget - written.length) := by
  constructor
  · have hsettle := settle_preorder budget node
    obtain ⟨last, hlast⟩ := Option.isSome_iff_exists.1
      (List.getLast?_isSome.2 (totals_preorder_ne_nil budget node))
    rw [settle, hlast] at hsettle
    rw [hlast, ← hsettle]
    cases (totals budget node.preorder).find? (· < 0) with
    | some total => rfl
    | none => rfl
  · intro output
    refine ⟨node.inline, ?_, fits_iff, fun hfits => remaining_of_le (fits_iff.1 hfits)⟩
    simp [Output.renderInline, Output.write, Output.emit, Forest.inline, inlineList_eq_flatMap,
      Segment.written]

/-- The third of four nodes takes one column more than seven, and the fourth is not visited.
Nine columns are just enough. -/
theorem remaining_eq_total_early :
    let node : Node := .group ['f'] .round
      [.group [] .square [.leaf ['a', 'b'] false] true, .leaf ['c'] false] false
    totals 7 node.preorder = [4, 1, -1, -2] ∧ node.remaining 7 = -1 ∧
      node.Fits 9 ∧ node.remaining 9 = 9 - (Output.empty.renderInline [node]).text.length := by
  intro node
  have htotals : totals 7 node.preorder = [4, 1, -1, -2] := by decide
  have hremaining := (remaining_eq_total node 7).1
  rw [htotals] at hremaining
  have hfits : node.Fits 9 := by decide
  obtain ⟨written, hwritten, -, hleft⟩ := (remaining_eq_total node 9).2 Output.empty
  refine ⟨htotals, (Option.some.inj hremaining).symm, hfits, ?_⟩
  rw [hwritten]
  exact hleft hfits

end Node

end Bracketed
