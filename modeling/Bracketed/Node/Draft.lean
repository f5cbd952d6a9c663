import Bracketed.Node.Basic

/-!
# Drafts of nodes

A draft is a node as somebody wrote it down: any text may stand where a pair of
brackets or a comma belongs, and children may lack a bracket. Checking a draft
builds its children first, from left to right, then looks up the bracket, and
last builds the node of these parts. The first failure counts.
-/

namespace Bracketed

inductive Draft
  | node (lead : Text) (pair : Option Text) (children : List Draft) (suffix : Text)
deriving Repr

namespace Draft

/-- The bracket of a node that may have none. -/
def readPair : Option Text → Except Fault (Option Bracket)
  | none => .ok none
  | some given => do return some (← Bracket.ofPair given)

mutual

def check : Draft → Except Fault Node
  | node lead pair children suffix => do
      let nodes ← checkList children
      let bracket ← readPair pair
      Node.build lead bracket nodes suffix

def checkList : List Draft → Except Fault (List Node)
  | [] => .ok []
  | draft :: rest => do
      let node ← draft.check
      let nodes ← checkList rest
      return node :: nodes

end

mutual

/-- A node written down part by part. -/
def ofNode : Node → Draft
  | .leaf lead comma => node lead none [] (Node.suffixText comma)
  | .group lead bracket children comma =>
      node lead (some bracket.pair) (ofNodes children) (Node.suffixText comma)

def ofNodes : List Node → List Draft
  | [] => []
  | first :: rest => ofNode first :: ofNodes rest

end

mutual

theorem check_ofNode (first : Node) : (ofNode first).check = .ok first := by
  cases first with
  | leaf lead comma =>
      simp [ofNode, check, checkList, readPair, Node.build_leaf, bind, Except.bind]
  | group lead bracket children comma =>
      simp [ofNode, check, checkList_ofNodes children, readPair, Bracket.ofPair_pair,
        Node.build_group, bind, Except.bind, pure, Except.pure]

theorem checkList_ofNodes (nodes : List Node) : checkList (ofNodes nodes) = .ok nodes := by
  cases nodes with
  | nil => rfl
  | cons first rest =>
      simp [ofNodes, checkList, check_ofNode first, checkList_ofNodes rest, bind, Except.bind,
        pure, Except.pure]

end

end Draft

end Bracketed
