import Bracketed.Bracket

/-!
# Nodes

A node is a leaf, which is text only, or a group: text that leads in, a bracket,
and the children inside it. Either may be followed by a comma. A forest is a list
of nodes side by side. Written on one line, a forest is the text of its nodes one
after the other.

Nodes are built from their parts by a check that refuses children without a
bracket around them and any text but a comma behind the node.
-/

namespace Bracketed

/-- The character that may follow a node. -/
def separator : Char := ','

inductive Node
  | leaf (lead : Text) (comma : Bool)
  | group (lead : Text) (bracket : Bracket) (children : List Node) (comma : Bool)
deriving Repr

abbrev Forest := List Node

namespace Node

mutual

def decEq (first second : Node) : Decidable (first = second) :=
  match first, second with
  | leaf lead comma, leaf lead' comma' =>
      decidable_of_iff (lead = lead' ∧ comma = comma') (by simp)
  | group lead bracket children comma, group lead' bracket' children' comma' =>
      have := decEqList children children'
      decidable_of_iff
        (lead = lead' ∧ bracket = bracket' ∧ children = children' ∧ comma = comma') (by simp)
  | leaf .., group .. => isFalse (by simp)
  | group .., leaf .. => isFalse (by simp)

def decEqList (first second : List Node) : Decidable (first = second) :=
  match first, second with
  | [], [] => isTrue rfl
  | node :: rest, node' :: rest' =>
      have := decEq node node'
      have := decEqList rest rest'
      decidable_of_iff (node = node' ∧ rest = rest') (by simp)
  | [], _ :: _ => isFalse (by simp)
  | _ :: _, [] => isFalse (by simp)

end

instance : DecidableEq Node := decEq

/-- The text before the bracket, which is all the text of a leaf. -/
def lead : Node → Text
  | leaf lead _ => lead
  | group lead _ _ _ => lead

def comma : Node → Bool
  | leaf _ comma => comma
  | group _ _ _ comma => comma

def children : Node → List Node
  | leaf _ _ => []
  | group _ _ children _ => children

def bracket? : Node → Option Bracket
  | leaf _ _ => none
  | group _ bracket _ _ => some bracket

def isLeaf : Node → Bool
  | leaf _ _ => true
  | group _ _ _ _ => false

def setComma (comma : Bool) : Node → Node
  | leaf lead _ => leaf lead comma
  | group lead bracket children _ => group lead bracket children comma

/-- What is written after a node. -/
def suffixText (comma : Bool) : Text :=
  if comma then [separator] else []

def suffix (node : Node) : Text :=
  suffixText node.comma

mutual

/-- The node on one line, without its lead. -/
def body : Node → Text
  | leaf _ comma => suffixText comma
  | group _ bracket children comma =>
      bracket.opening :: (inlineList children ++ bracket.closing :: suffixText comma)

/-- Nodes side by side on one line. -/
def inlineList : List Node → Text
  | [] => []
  | node :: rest => node.lead ++ node.body ++ inlineList rest

end

/-- The node on one line. -/
def inline (node : Node) : Text :=
  node.lead ++ node.body

mutual

/-- The number of nodes over all depths. -/
def size : Node → Nat
  | leaf _ _ => 1
  | group _ _ children _ => sizeList children + 1

def sizeList : List Node → Nat
  | [] => 0
  | node :: rest => node.size + sizeList rest

end

theorem inlineList_eq_flatMap (forest : List Node) :
    inlineList forest = forest.flatMap inline := by
  induction forest with
  | nil => rfl
  | cons node rest ih => simp [inlineList, inline, ih]

theorem inlineList_append (first second : List Node) :
    inlineList (first ++ second) = inlineList first ++ inlineList second := by
  simp [inlineList_eq_flatMap]

theorem inline_leaf (lead : Text) (comma : Bool) :
    (leaf lead comma).inline = lead ++ suffixText comma := by
  simp [inline, Node.lead, body]

theorem inline_group (lead : Text) (bracket : Bracket) (children : List Node) (comma : Bool) :
    (group lead bracket children comma).inline =
      lead ++ bracket.opening ::
        (inlineList children ++ bracket.closing :: suffixText comma) := by
  simp [inline, Node.lead, body]

/-! ## Checked parts -/

/-- Whether the text after a node is a comma; it is empty otherwise. -/
def readSuffix (given : Text) : Except Fault Bool :=
  match given with
  | [] => .ok false
  | [c] => if c = separator then .ok true else .error (.badSuffix given)
  | _ => .error (.badSuffix given)

/-- A node of the given parts. -/
def build (lead : Text) (bracket : Option Bracket) (children : List Node) (given : Text) :
    Except Fault Node :=
  match bracket, children with
  | none, _ :: _ => .error .childrenWithoutBracket
  | none, [] => do return leaf lead (← readSuffix given)
  | some bracket, children => do return group lead bracket children (← readSuffix given)

/-- A node of the same parts with another text after it. -/
def withSuffix (node : Node) (given : Text) : Except Fault Node :=
  build node.lead node.bracket? node.children given

theorem readSuffix_suffixText (comma : Bool) : readSuffix (suffixText comma) = .ok comma := by
  cases comma <;> rfl

theorem build_leaf (lead : Text) (comma : Bool) :
    build lead none [] (suffixText comma) = .ok (leaf lead comma) := by
  rw [build, readSuffix_suffixText]
  rfl

theorem build_group (lead : Text) (bracket : Bracket) (children : List Node) (comma : Bool) :
    build lead (some bracket) children (suffixText comma) =
      .ok (group lead bracket children comma) := by
  rw [build, readSuffix_suffixText]
  rfl

theorem withSuffix_suffixText (node : Node) (comma : Bool) :
    node.withSuffix (suffixText comma) = .ok (node.setComma comma) := by
  cases node with
  | leaf lead _ => exact build_leaf lead comma
  | group lead bracket children _ => exact build_group lead bracket children comma

end Node

/-- The forest on one line. -/
def Forest.inline (forest : Forest) : Text :=
  Node.inlineList forest

end Bracketed
