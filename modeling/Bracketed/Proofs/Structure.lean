import Bracketed.Proofs.Acceptance
import Bracketed.Proofs.Canonical

/-!
# Structure

The signs of a text are its unquoted opening brackets and commas, and the closing brackets
that close the innermost open one.  A forest has a sign for each of its brackets and
commas, in the order of its line.  The signs of a text are those of its forest, one by one,
and no lead of the forest hides any.
-/

namespace Bracketed

/-! ## Nodes at any depth -/

/-- The forest holds this node: inside these brackets, innermost first, and with these
nodes behind it on its level. -/
inductive Forest.Holds (forest : Forest) : List Bracket → Node → List Node → Prop
  | root {before later : List Node} {node : Node} (h : forest = before ++ node :: later) :
      Holds forest [] node later
  | child {opened : List Bracket} {lead : Text} {bracket : Bracket}
      {children before later behind : List Node} {comma : Bool} {node : Node}
      (parent : Holds forest opened (.group lead bracket children comma) behind)
      (h : children = before ++ node :: later) :
      Holds forest (bracket :: opened) node later

/-- A node that stands inside some brackets and before some nodes hides no sign in its
lead, and a leaf has text and stands apart from what follows. -/
structure Node.Clear (opened : List Bracket) (node : Node) (later : List Node) : Prop where
  ne_opening : ∀ c ∈ node.lead.unquoted, ∀ bracket : Bracket, c ≠ bracket.opening
  ne_separator : ∀ c ∈ node.lead.unquoted, c ≠ separator
  ne_closing : ∀ bracket ∈ opened.head?, ∀ c ∈ node.lead.unquoted, c ≠ bracket.closing
  closed : node.lead.Closed ∨ (opened = [] ∧ later = [] ∧ node.isLeaf = true)
  leaf : node.isLeaf = true → node.lead ≠ [] ∧ node.children = []
  last : node.isLeaf = true → node.comma = false → later = []

namespace Row

variable {opened : List Bracket} {before later : List Node} {node : Node}

theorem behind (h : Row opened (before ++ later)) : Row opened later := by
  induction before with
  | nil => exact h
  | cons node rest ih => exact ih h.tail

/-- The first of canonical nodes is clear. -/
theorem clear (h : Row opened (node :: later)) : node.Clear opened later := by
  have hcanonical := h.canonical node List.mem_cons_self
  have hplain : node.lead.Plain opened := by
    cases hcanonical with
    | leaf _ plain _ => exact plain
    | group plain _ _ _ => exact plain
  have hbare : node.isLeaf = true → node.comma = false → later = [] := by
    intro hleaf hcomma
    cases hcanonical with
    | leaf _ _ _ => exact h.eq_nil_of_bare hcomma
    | group _ _ _ _ => cases hleaf
  constructor
  case ne_opening =>
    rintro c hmem bracket rfl
    cases (Role.of_opening opened bracket).symm.trans (hplain _ hmem)
  case ne_separator =>
    rintro c hmem rfl
    cases hplain _ hmem
  case ne_closing =>
    rintro bracket hhead c hmem rfl
    obtain ⟨outer, rfl⟩ := List.head?_eq_some_iff.1 hhead
    cases (Role.of_closing bracket outer).symm.trans (hplain _ hmem)
  case closed =>
    cases hcanonical with
    | leaf _ _ closed =>
        refine closed.imp_right ?_
        rintro ⟨hroot, hcomma⟩
        exact ⟨hroot, hbare rfl hcomma, rfl⟩
    | group _ closed _ _ => exact .inl closed
  case leaf =>
    intro hleaf
    cases hcanonical with
    | leaf ne_nil _ _ => exact ⟨ne_nil, rfl⟩
    | group _ _ _ _ => cases hleaf
  case last => exact hbare

end Row

/-- Canonical nodes are canonical at every depth. -/
theorem Forest.Holds.row {forest : Forest} {opened : List Bracket} {node : Node}
    {later : List Node} (holds : forest.Holds opened node later) (h : forest.Canonical) :
    Row opened (node :: later) := by
  induction holds with
  | root hforest =>
      rw [Forest.Canonical, hforest] at h
      exact h.behind
  | child parent hchildren ih =>
      cases ih.canonical _ List.mem_cons_self with
      | group _ _ children_canonical children_link =>
          have hrow := Row.mk children_canonical children_link
          rw [hchildren] at hrow
          exact hrow.behind

/-! ## Signs -/

/-- The characters that are not plain text, inside some open brackets. -/
def Bracket.signs (opened : List Bracket) : Text → Text
  | [] => []
  | c :: rest => (if Role.of opened c = .plain then [] else [c]) ++ signs (scan opened c) rest

/-- The unquoted characters of a text that are not plain. -/
def Text.signs (text : Text) : Text :=
  Bracket.signs [] text.unquoted

namespace Node

mutual

/-- The brackets and commas of a node, in the order of its line. -/
def signs : Node → Text
  | leaf _ comma => suffixText comma
  | group _ bracket children comma =>
      bracket.opening :: (signsList children ++ bracket.closing :: suffixText comma)

def signsList : List Node → Text
  | [] => []
  | node :: rest => node.signs ++ signsList rest

end

theorem signsList_append (first second : List Node) :
    signsList (first ++ second) = signsList first ++ signsList second := by
  induction first with
  | nil => rfl
  | cons node rest ih => simp [signsList, ih]

end Node

/-- The signs of some open groups up to the innermost opening bracket. -/
def Opened.signs : List Opened → Text
  | [] => []
  | group :: outer => signs outer ++ Node.signsList group.nodes ++ [group.bracket.opening]

def Begun.signs : Begun → Text
  | text _ => []
  | group _ bracket children => bracket.opening :: (Node.signsList children ++ [bracket.closing])

namespace Pass

/-- The signs of all that a pass has kept so far. -/
def signs (pass : Pass) : Text :=
  Opened.signs pass.opened ++ Node.signsList pass.nodes ++ pass.begun.signs

variable {pass after : Pass} {gap : Text} {c : Char}

theorem signsList_leafOf (text : Text) : Node.signsList (leafOf text) = [] := by
  unfold leafOf
  split <;> simp [Node.signsList, Node.signs, Node.suffixText]

theorem signsList_settled (pass : Pass) :
    Node.signsList pass.settled = Node.signsList pass.nodes ++ pass.begun.signs := by
  unfold settled
  cases pass.begun with
  | text lead => simp [Begun.signs]
  | group lead bracket children =>
      simp [Begun.signs, Node.signsList_append, Node.signsList, Node.signs, Node.suffixText]

/-- A pass keeps every character that is not plain as a sign. -/
theorem signs_step (h : pass.step gap c = some after) :
    after.signs = pass.signs ++ if Role.of pass.brackets c = .plain then [] else [c] := by
  have hsettled := signsList_settled pass
  rcases step_cases h with ⟨bracket, hrole, rfl⟩ | ⟨group, outer, hrole, hopened, hclosing, rfl⟩ |
    ⟨hrole, hcomma⟩ | ⟨hrole, rfl⟩
  · rw [hrole, if_neg Role.noConfusion, Role.eq_of_opening hrole]
    simp [takeOpening, signs, Opened.signs, Begun.signs, Node.signsList, hsettled]
  · rw [hrole, if_neg Role.noConfusion]
    simp [signs, hopened, Opened.signs, Begun.signs, Node.signsList_append, signsList_leafOf,
      hsettled, hclosing]
  · rw [hrole, if_neg Role.noConfusion, Role.eq_of_comma hrole]
    rcases takeComma_cases hcomma with
      ⟨lead, hbegun, -, rfl⟩ | ⟨lead, bracket, children, hbegun, rfl⟩
    · simp [signs, hbegun, Begun.signs, Node.signsList_append, Node.signsList, Node.signs,
        Node.suffixText]
    · simp [signs, hbegun, Begun.signs, Node.signsList_append, Node.signsList, Node.signs,
        Node.suffixText]
  · rw [hrole, if_pos rfl]
    simp [takePlain, signs, Begun.signs, hsettled]

theorem signsList_finish {forest : Forest} (h : pass.finish gap = .ok forest) :
    Node.signsList forest = pass.signs := by
  obtain ⟨hopened, rfl⟩ := eq_of_finish h
  rw [Node.signsList_append, signsList_leafOf, signsList_settled, signs, hopened]
  simp [Opened.signs]

/-- A whole pass keeps all signs. -/
theorem signsList_run {trail : Trail} {forest : Forest} (h : pass.run trail = .ok forest) :
    Node.signsList forest = pass.signs ++ Bracket.signs pass.brackets trail.chars := by
  induction trail generalizing pass with
  | stop gap =>
      rw [signsList_finish h]
      simp [Trail.chars, Bracket.signs]
  | step gap c next ih =>
      unfold run at h
      split at h
      · cases h
      · next after hstep =>
          rw [ih h, signs_step hstep, brackets_step hstep, Trail.chars, Bracket.signs,
            List.append_assoc]

end Pass

namespace Forest

theorem canonical_of_read {limit : Nat} {text : Text} {reading : Reading Forest}
    (h : Forest.read limit text = .ok reading) : reading.forest.Canonical := by
  by_cases hne : reading.forest = []
  · rw [hne]
    exact Row.nil []
  · exact canonical_of_run ((run_eq_ok_iff h).2 ⟨rfl, hne⟩)

/-- Below the nesting limit a text is read, every node of its forest is clear, at any
depth, and every sign of the text is one of its forest. -/
theorem clear_of_read {limit : Nat} {text : Text} (h : text.nesting < limit) :
    ∃ reading, Forest.read limit text = .ok reading ∧
      (∀ opened node later, reading.forest.Holds opened node later → node.Clear opened later) ∧
      (reading.forest ≠ [] → Node.signsList reading.forest = text.signs) := by
  obtain ⟨reading, hread⟩ := exists_read h
  refine ⟨reading, hread, ?_, ?_⟩
  · intro opened node later holds
    exact (holds.row (canonical_of_read hread)).clear
  · intro hne
    exact Pass.signsList_run ((run_eq_ok_iff hread).2 ⟨rfl, hne⟩)

/-- Brackets that close nothing and a quoted one are text, and a quote stays open to the
end. -/
theorem clear_of_read_stray :
    ∃ reading,
      Forest.read 2 ['(', 'a', ']', ',', '\x22', ')', '\x22', ')', '}', '\x27', '('] = .ok reading ∧
      Node.Clear [.round] (.leaf ['a', ']'] true) [.leaf ['\x22', ')', '\x22'] false] ∧
      Node.Clear [] (.leaf ['}', '\x27', '('] false) [] ∧
      Node.signsList reading.forest = ['(', ',', ')'] := by
  have hnesting :
      Text.nesting ['(', 'a', ']', ',', '\x22', ')', '\x22', ')', '}', '\x27', '('] < 2 := by
    decide +kernel
  have hforest :
      (Forest.read 2 ['(', 'a', ']', ',', '\x22', ')', '\x22', ')', '}', '\x27', '(']).map
        Reading.forest =
      .ok [.group [] .round [.leaf ['a', ']'] true, .leaf ['\x22', ')', '\x22'] false] false,
        .leaf ['}', '\x27', '('] false] := rfl
  obtain ⟨reading, hread, hclear, hsigns⟩ := clear_of_read hnesting
  rw [hread] at hforest
  have hread_eq := Except.ok.inj hforest
  rw [hread_eq] at hclear hsigns
  refine ⟨reading, hread, hclear _ _ _ ?_, hclear _ _ _ ?_, ?_⟩
  · exact .child (@Holds.root _ [] _ _ rfl) (List.nil_append _).symm
  · exact .root List.singleton_append.symm
  · rw [hread_eq, hsigns (List.cons_ne_nil _ _)]
    decide +kernel

end Forest

end Bracketed
