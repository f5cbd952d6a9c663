import Bracketed.Reading
import Bracketed.Proofs.Ahead

/-!
# Reading a node

The reader looks for an opening bracket and for the end of the node, and compares
what it would cut out.  That is one search for either: a node is a leaf up to the end
of the text, a leaf up to its own end, or a group, by what the search stops at.
-/

namespace Bracketed

namespace Head

theorem front?_eq_head? (head : Head) : head.front? = head.ahead.chars.head? := by
  unfold front?
  cases head.ahead <;> rfl

/-! ## Leaves and commas -/

/-- The check of a node with a comma behind it finds nothing wrong. -/
theorem readComma_eq (node : Node) (head : Head) :
    head.readComma node =
      if head.front? = some separator then do
        let next ← head.advance
        return .ofValue (node.setComma true) next
      else .ok (.ofValue node head) := by
  have hbuilt : node.withSuffix [separator] = .ok (node.setComma true) :=
    node.withSuffix_suffixText true
  simp only [readComma, hbuilt]
  rfl

theorem readComma_of_comma {head : Head} {gap : Text} {next : Trail} (node : Node)
    (h : head.ahead = .step gap separator next) :
    ∃ after, head.readComma node = .ok (.ofValue (node.setComma true) after) ∧
      after.ahead = next ∧ head.Precedes after := by
  obtain ⟨after, hadvance, hahead, hprecedes⟩ := advance_of_ahead h
  have hfront : head.front? = some separator := by
    rw [front?_eq_head?, h]
    rfl
  refine ⟨after, ?_, hahead, hprecedes⟩
  rw [readComma_eq, if_pos hfront, hadvance]
  rfl

theorem readComma_of_ne {head : Head} (node : Node)
    (h : head.ahead.chars.head? ≠ some separator) :
    head.readComma node = .ok (.ofValue node head) := by
  rw [readComma_eq, front?_eq_head?, if_neg h]

theorem readLeaf_nil (head : Head) : head.readLeaf [] = .ok ⟨none, head, []⟩ :=
  rfl

theorem readLeaf_of_ne_nil {lead : Text} (head : Head) (h : lead ≠ []) :
    head.readLeaf lead = head.readComma (.leaf lead false) := by
  have hbuilt : Node.build lead none [] [] = .ok (.leaf lead false) := Node.build_leaf lead false
  simp [readLeaf, h, hbuilt, bind, Except.bind]

theorem quotedLeaf_eq (quoted : Text) :
    quotedLeaf quoted = .ok (if quoted = [] then [] else [.leaf quoted false]) := by
  cases quoted with
  | nil => rfl
  | cons c rest => rfl

/-! ## Children -/

section Children

variable {bracket : Bracket} {head : Head} {gap : Text} {c : Char} {next : Trail}

theorem readChildren_of_stop {lead : Text} {child : Head → Except Fault (Reading Node)}
    {fuel : Nat} (h : head.ahead = .stop gap) :
    head.readChildren bracket lead child (fuel + 1) =
      .ok ⟨none, head, [.unclosed bracket lead]⟩ := by
  rw [readChildren, isEmpty_of_ahead_stop h, if_pos rfl]

theorem readChildren_of_closing (lead : Text) (child : Head → Except Fault (Reading Node))
    (fuel : Nat) (h : head.ahead = .step gap bracket.closing next) :
    ∃ after, head.readChildren bracket lead child (fuel + 1) =
        .ok (.ofValue (if gap = [] then [] else [.leaf gap false]) after) ∧
      after.ahead = next ∧ head.Precedes after := by
  obtain ⟨after, hadvance, hahead, hprecedes⟩ := advance_of_ahead h
  refine ⟨after, ?_, hahead, hprecedes⟩
  rw [readChildren, isEmpty_of_ahead_step h, front_of_ahead h, textUntil_self, hadvance, h]
  simp [bind, Except.bind, pure, Except.pure, Trail.gap, quotedLeaf_eq]

theorem readChildren_of_child (lead : Text) (child : Head → Except Fault (Reading Node))
    (fuel : Nat) (h : head.ahead = .step gap c next) (hc : c ≠ bracket.closing) :
    head.readChildren bracket lead child (fuel + 1) = (do
      let first ← child head
      first.andThen fun node place => do
        let rest ← place.readChildren bracket lead child fuel
        return rest.map (node :: ·)) := by
  rw [readChildren, isEmpty_of_ahead_step h, front_of_ahead h]
  exact (if_neg Bool.false_ne_true).trans (if_neg hc)

end Children

/-! ## The three ways to read a node -/

section Node

variable {stops : Text} {head : Head} {allowance : Nat} {gap : Text} {c : Char} {next : Trail}

theorem openings_subset (stops : Text) : Bracket.openings ⊆ Bracket.openings ++ stops :=
  List.subset_append_left _ _

theorem stops_subset (stops : Text) : stops ⊆ Bracket.openings ++ stops :=
  List.subset_append_right _ _

theorem readNode_succ (allowance : Nat) (stops : Text) (head : Head) :
    head.readNode (allowance + 1) stops =
      if (head.ahead.upTo stops).length < (head.ahead.upTo Bracket.openings).length then
        (head.seek stops).anchored.readLeaf (head.ahead.upTo stops)
      else if (head.seek Bracket.openings).isEmpty then
        (head.seek Bracket.openings).anchored.readLeaf (head.ahead.upTo Bracket.openings)
      else (do
        let char ← (head.seek Bracket.openings).front
        let bracket ← Bracket.ofOpening [char]
        let inside ← (head.seek Bracket.openings).advance
        let children ← inside.readChildren bracket (head.ahead.upTo Bracket.openings)
          (readNode allowance [separator, bracket.closing]) (inside.ahead.length + 1)
        children.andThen fun nodes place =>
          place.readComma (.group (head.ahead.upTo Bracket.openings) bracket nodes false)) := by
  have hbuilt : ∀ bracket nodes,
      Node.build (head.ahead.upTo Bracket.openings) (some bracket) nodes [] =
        .ok (.group (head.ahead.upTo Bracket.openings) bracket nodes false) :=
    fun bracket nodes => Node.build_group _ bracket nodes false
  rw [readNode, textUntil_seek, textUntil_seek]
  simp only [bind, Except.bind, hbuilt]

/-- Neither a bracket nor an end comes: a leaf up to the end of the text. -/
theorem readNode_of_stop (h : head.ahead.found (Bracket.openings ++ stops) = .stop gap) :
    ∃ place, head.Precedes place ∧ place.ahead = .stop [] ∧
      head.readNode (allowance + 1) stops =
        place.readLeaf (head.ahead.upTo (Bracket.openings ++ stops)) := by
  obtain ⟨hopener, hlead⟩ := Trail.found_of_stop (openings_subset stops) h
  obtain ⟨-, hshort⟩ := Trail.found_of_stop (stops_subset stops) h
  have hahead : (head.seek Bracket.openings).ahead = .stop gap := (ahead_seek _ _).trans hopener
  refine ⟨(head.seek Bracket.openings).anchored,
    (precedes_seek _ _).trans (precedes_anchored _), ?_, ?_⟩
  · rw [ahead_anchored, hahead]
    rfl
  · rw [readNode_succ, hlead, hshort, if_neg (Nat.lt_irrefl _),
      if_pos (isEmpty_of_ahead_stop hahead)]

/-- The end of the node comes first: a leaf up to it. -/
theorem readNode_of_end (h : head.ahead.found (Bracket.openings ++ stops) = .step gap c next)
    (hc : c ∉ Bracket.openings) :
    ∃ place, head.Precedes place ∧ place.ahead = .step [] c next ∧
      head.readNode (allowance + 1) stops =
        place.readLeaf (head.ahead.upTo (Bracket.openings ++ stops)) := by
  have hmem : c ∈ stops := by
    rcases List.mem_append.1 (Trail.mem_of_found_eq_step h) with hopening | hmem
    · exact absurd hopening hc
    · exact hmem
  have hlead := Trail.upTo_lt_of_not_mem (openings_subset stops) h hc
  obtain ⟨hstop, hshort⟩ := Trail.found_of_mem (stops_subset stops) h hmem
  refine ⟨(head.seek stops).anchored, (precedes_seek _ _).trans (precedes_anchored _), ?_, ?_⟩
  · rw [ahead_anchored, ahead_seek, hstop]
    rfl
  · rw [readNode_succ, hshort, if_pos hlead]

/-- A bracket comes first: a group from it on. -/
theorem readNode_of_opening {bracket : Bracket}
    (h : head.ahead.found (Bracket.openings ++ stops) = .step gap bracket.opening next) :
    ∃ inside, head.Precedes inside ∧ inside.ahead = next ∧
      head.readNode (allowance + 1) stops = (do
        let children ← inside.readChildren bracket
          (head.ahead.upTo (Bracket.openings ++ stops))
          (readNode allowance [separator, bracket.closing]) (next.length + 1)
        children.andThen fun nodes place =>
          place.readComma
            (.group (head.ahead.upTo (Bracket.openings ++ stops)) bracket nodes false)) := by
  have hmem : bracket.opening ∈ Bracket.openings := Bracket.mem_openings_iff.2 ⟨bracket, rfl⟩
  obtain ⟨hopener, hlead⟩ := Trail.found_of_mem (openings_subset stops) h hmem
  -- the end of the node is no nearer than the bracket
  have hnear : ¬ (head.ahead.upTo stops).length <
      (head.ahead.upTo (Bracket.openings ++ stops)).length := by
    by_cases hstops : bracket.opening ∈ stops
    · rw [(Trail.found_of_mem (stops_subset stops) h hstops).2]
      exact Nat.lt_irrefl _
    · have := Trail.upTo_lt_of_not_mem (stops_subset stops) h hstops
      omega
  have hahead : (head.seek Bracket.openings).ahead = .step gap bracket.opening next :=
    (ahead_seek _ _).trans hopener
  obtain ⟨inside, hadvance, hinside, hprecedes⟩ := advance_of_ahead hahead
  refine ⟨inside, (precedes_seek _ _).trans hprecedes, hinside, ?_⟩
  rw [readNode_succ, hlead, if_neg hnear, isEmpty_of_ahead_step hahead, front_of_ahead hahead,
    hadvance]
  simp only [Bool.false_eq_true, if_false, bind, Except.bind, Bracket.ofOpening_opening, hinside]

end Node

end Head

end Bracketed
