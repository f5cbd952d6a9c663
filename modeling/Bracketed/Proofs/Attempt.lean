import Bracketed.Proofs.Session

/-!
# Attempts

A reading that finds groups nested too deep breaks off without an answer, and yet it has
moved the head.  An attempt reads as the reader does and also says where the head is left
then.  How deep an attempt may go is given to it, as to the reader, so it may break off at
any depth.  The answers of attempts are those of the reader.
-/

namespace Bracketed

/-- What reading came to, or why it broke off, and in either case where it left the head and
what it reported. -/
structure Attempt (α : Type) where
  result : Except Fault (Option α)
  head : Head
  events : List Event

namespace Attempt

variable {α β : Type}

/-- The answer of an attempt, unless it broke off. -/
def answer (attempt : Attempt α) : Except Fault (Reading α) :=
  attempt.result.map fun outcome => ⟨outcome, attempt.head, attempt.events⟩

/-- An answer that is given at once; without one the head stays where it is. -/
def ofAnswer (head : Head) : Except Fault (Reading α) → Attempt α
  | .ok reading => ⟨.ok reading.outcome, reading.head, reading.events⟩
  | .error fault => ⟨.error fault, head, []⟩

/-- An attempt to go on, if there is a value to go on with. -/
def andThen (attempt : Attempt α) (next : α → Head → Attempt β) : Attempt β :=
  match attempt.result with
  | .ok (some value) =>
      let later := next value attempt.head
      { later with events := attempt.events ++ later.events }
  | .ok none => ⟨.ok none, attempt.head, attempt.events⟩
  | .error fault => ⟨.error fault, attempt.head, attempt.events⟩

def map (f : α → β) (attempt : Attempt α) : Attempt β :=
  ⟨attempt.result.map (·.map f), attempt.head, attempt.events⟩

/-- An attempt that came to nothing abandons its text; one that broke off does not say so. -/
def orAbandoned (attempt : Attempt α) : Attempt α :=
  match attempt.result with
  | .ok outcome => .ofAnswer attempt.head
      (.ok (Reading.orAbandoned ⟨outcome, attempt.head, attempt.events⟩))
  | .error _ => attempt

theorem answer_ofAnswer (head : Head) (result : Except Fault (Reading α)) :
    (ofAnswer head result).answer = result := by
  cases result <;> rfl

theorem answer_map (f : α → β) (attempt : Attempt α) :
    (attempt.map f).answer = (do
      let reading ← attempt.answer
      return reading.map f) := by
  obtain ⟨result, head, events⟩ := attempt
  cases result <;> rfl

theorem answer_andThen (attempt : Attempt α) (next : α → Head → Attempt β) :
    (attempt.andThen next).answer = (do
      let reading ← attempt.answer
      reading.andThen fun value place => (next value place).answer) := by
  obtain ⟨fault | _ | value, head, events⟩ := attempt
  · rfl
  · rfl
  · simp only [andThen, answer, Reading.andThen, Except.map, bind, Except.bind]
    cases (next value head).result <;> rfl

theorem answer_orAbandoned (attempt : Attempt α) :
    attempt.orAbandoned.answer = (do
      let reading ← attempt.answer
      return reading.orAbandoned) := by
  obtain ⟨fault | outcome, head, events⟩ := attempt
  · rfl
  · exact answer_ofAnswer head _

/-- Reporting that the text is abandoned changes neither the result nor the head. -/
theorem orAbandoned_result_head (attempt : Attempt α) :
    attempt.orAbandoned.result = attempt.result ∧ attempt.orAbandoned.head = attempt.head := by
  obtain ⟨fault | _ | value, head, events⟩ := attempt
  · exact ⟨rfl, rfl⟩
  · exact ⟨rfl, rfl⟩
  · exact ⟨rfl, rfl⟩

theorem result_head_of_answer {attempt : Attempt α} {reading : Reading α}
    (h : attempt.answer = .ok reading) :
    attempt.result = .ok reading.outcome ∧ attempt.head = reading.head := by
  obtain ⟨fault | outcome, head, events⟩ := attempt
  · cases h
  · cases h
    exact ⟨rfl, rfl⟩

end Attempt

namespace Head

/-! ## The first bracket or end -/

/-- What a node turns out to be at its first bracket or end. -/
inductive Sight
  /-- A leaf of this text, and the place where it ends. -/
  | leaf (lead : Text) (place : Head)
  /-- A group, and the place behind its opening bracket. -/
  | group (lead : Text) (bracket : Bracket) (inside : Head)

/-- Looks for an opening bracket and for the end of a node, whichever comes first. -/
def sight (stops : Text) (head : Head) : Except Fault Sight := do
  let opener := head.seek Bracket.openings
  let stop := head.seek stops
  let lead ← head.textUntil opener
  let short ← head.textUntil stop
  if short.length < lead.length then
    return .leaf short stop.anchored
  else if opener.isEmpty then
    return .leaf lead opener.anchored
  else
    let char ← opener.front
    let bracket ← Bracket.ofOpening [char]
    let inside ← opener.advance
    return .group lead bracket inside

section Sight

variable {head : Head} {stops gap : Text} {bracket : Bracket} {next : Trail}

theorem sight_of_near
    (h : (head.ahead.upTo stops).length < (head.ahead.upTo Bracket.openings).length) :
    head.sight stops = .ok (.leaf (head.ahead.upTo stops) (head.seek stops).anchored) := by
  simp only [sight, textUntil_seek, bind, Except.bind, if_pos h]
  rfl

theorem sight_of_stop
    (hnear : ¬ (head.ahead.upTo stops).length < (head.ahead.upTo Bracket.openings).length)
    (h : head.ahead.found Bracket.openings = .stop gap) :
    head.sight stops =
      .ok (.leaf (head.ahead.upTo Bracket.openings) (head.seek Bracket.openings).anchored) := by
  have hempty := isEmpty_of_ahead_stop ((ahead_seek _ head).trans h)
  simp only [sight, textUntil_seek, bind, Except.bind, if_neg hnear, if_pos hempty]
  rfl

theorem sight_of_opening
    (hnear : ¬ (head.ahead.upTo stops).length < (head.ahead.upTo Bracket.openings).length)
    (h : head.ahead.found Bracket.openings = .step gap bracket.opening next) :
    ∃ inside, (head.seek Bracket.openings).advance = .ok inside ∧ inside.ahead = next ∧
      head.sight stops =
        .ok (.group (head.ahead.upTo Bracket.openings) bracket inside) := by
  have hahead := (ahead_seek _ head).trans h
  obtain ⟨inside, hadvance, hinside, -⟩ := advance_of_ahead hahead
  refine ⟨inside, hadvance, hinside, ?_⟩
  simp only [sight, textUntil_seek, bind, Except.bind, if_neg hnear, isEmpty_of_ahead_step hahead,
    front_of_ahead hahead, Bracket.ofOpening_opening, hadvance]
  rfl

/-- The three things that a head can see. -/
theorem sight_cases (head : Head) (stops : Text) :
    (head.ahead.upTo stops).length < (head.ahead.upTo Bracket.openings).length ∨
      ¬ (head.ahead.upTo stops).length < (head.ahead.upTo Bracket.openings).length ∧
        ((∃ gap, head.ahead.found Bracket.openings = .stop gap) ∨
          ∃ gap bracket next,
            head.ahead.found Bracket.openings = .step gap (Bracket.opening bracket) next) := by
  by_cases hnear :
    (head.ahead.upTo stops).length < (head.ahead.upTo Bracket.openings).length
  · exact .inl hnear
  · right
    refine ⟨hnear, ?_⟩
    cases hfound : head.ahead.found Bracket.openings with
    | stop gap => exact .inl ⟨gap, rfl⟩
    | step gap c next =>
        obtain ⟨bracket, rfl⟩ := Bracket.mem_openings_iff.1 (Trail.mem_of_found_eq_step hfound)
        exact .inr ⟨gap, bracket, next, rfl⟩

end Sight

/-! ## The reader as attempts -/

/-- An attempt at the children of an open group. -/
def attemptChildren (bracket : Bracket) (lead : Text) (child : Head → Attempt Node) :
    Nat → Head → Attempt (List Node)
  | 0, head => ⟨.error .stalled, head, []⟩
  | rounds + 1, head =>
      if head.isEmpty then ⟨.ok none, head, [.unclosed bracket lead]⟩
      else if head.front? = some bracket.closing then
        .ofAnswer head do
          let last ← quotedLeaf (← head.textUntil head)
          let next ← head.advance
          return .ofValue last next
      else
        (child head).andThen fun node place =>
          (attemptChildren bracket lead child rounds place).map (node :: ·)

/-- An attempt at a node that breaks off below so many groups. -/
def attemptNode : Nat → Text → Head → Attempt Node
  | 0, _, head => ⟨.error .tooDeep, head, []⟩
  | allowance + 1, stops, head =>
      match head.sight stops with
      | .error fault => ⟨.error fault, head, []⟩
      | .ok (.leaf lead place) => .ofAnswer place (place.readLeaf lead)
      | .ok (.group lead bracket inside) =>
          (inside.attemptChildren bracket lead
            (attemptNode allowance [separator, bracket.closing])
            (inside.ahead.length + 1)).andThen fun nodes place =>
              .ofAnswer place (place.readComma (.group lead bracket nodes false))

/-- An attempt at nodes side by side to the end of the text. -/
def attemptNodes (limit : Nat) : Nat → Head → Attempt Forest
  | 0, head => ⟨.error .stalled, head, []⟩
  | rounds + 1, head =>
      (head.attemptNode limit [separator]).orAbandoned.andThen fun node place =>
        if place.isEmpty then ⟨.ok (some [node]), place, []⟩
        else (attemptNodes limit rounds place).map (node :: ·)

def attemptForest (limit : Nat) (head : Head) : Attempt Forest :=
  head.attemptNodes limit (head.ahead.length + 1)

section Children

variable {bracket : Bracket} {head : Head} {gap : Text} {c : Char} {next : Trail}

theorem attemptChildren_of_stop (lead : Text) (child : Head → Attempt Node) (rounds : Nat)
    (h : head.ahead = .stop gap) :
    head.attemptChildren bracket lead child (rounds + 1) =
      ⟨.ok none, head, [.unclosed bracket lead]⟩ := by
  rw [attemptChildren, isEmpty_of_ahead_stop h, if_pos rfl]

theorem attemptChildren_of_closing (lead : Text) (child : Head → Attempt Node) (rounds : Nat)
    (h : head.ahead = .step gap bracket.closing next) :
    ∃ after, head.advance = .ok after ∧ after.ahead = next ∧
      head.attemptChildren bracket lead child (rounds + 1) =
        ⟨.ok (some (if gap = [] then [] else [.leaf gap false])), after, []⟩ := by
  obtain ⟨after, hadvance, hafter, -⟩ := advance_of_ahead h
  refine ⟨after, hadvance, hafter, ?_⟩
  rw [attemptChildren, isEmpty_of_ahead_step h, front?_eq_head?, textUntil_self, hadvance, h]
  simp [Trail.chars, Trail.gap, Attempt.ofAnswer, quotedLeaf_eq, Reading.ofValue, bind,
    Except.bind, pure, Except.pure]

theorem attemptChildren_of_child (lead : Text) (child : Head → Attempt Node) (rounds : Nat)
    (h : head.ahead = .step gap c next) (hc : c ≠ bracket.closing) :
    head.attemptChildren bracket lead child (rounds + 1) =
      (child head).andThen fun node place =>
        (place.attemptChildren bracket lead child rounds).map (node :: ·) := by
  have hfront : head.front? ≠ some bracket.closing := by
    rw [front?_eq_head?, h]
    exact fun hsame => hc (Option.some.inj hsame)
  rw [attemptChildren, isEmpty_of_ahead_step h, if_neg Bool.false_ne_true, if_neg hfront]

end Children

theorem answer_attemptChildren {bracket : Bracket} {lead : Text} {child : Head → Attempt Node}
    {reader : Head → Except Fault (Reading Node)}
    (hchild : ∀ head, (child head).answer = reader head) (rounds : Nat) (head : Head) :
    (head.attemptChildren bracket lead child rounds).answer =
      head.readChildren bracket lead reader rounds := by
  induction rounds generalizing head with
  | zero => rfl
  | succ rounds ih =>
      cases hahead : head.ahead with
      | stop gap =>
          rw [attemptChildren_of_stop _ _ _ hahead, readChildren_of_stop hahead]
          rfl
      | step gap c next =>
          by_cases hc : c = bracket.closing
          · subst hc
            obtain ⟨after, hadvance, -, hattempt⟩ :=
              attemptChildren_of_closing lead child rounds hahead
            rw [hattempt, readChildren, isEmpty_of_ahead_step hahead, front_of_ahead hahead,
              textUntil_self, hadvance, hahead]
            simp [Attempt.answer, Trail.gap, quotedLeaf_eq, Reading.ofValue, bind, Except.bind,
              pure, Except.pure, Except.map]
          · rw [attemptChildren_of_child _ _ _ hahead hc, readChildren_of_child _ _ _ hahead hc,
              Attempt.answer_andThen, hchild]
            simp only [Attempt.answer_map, ih]

/-- An attempt at a node comes to the answer of the reader. -/
theorem answer_attemptNode (allowance : Nat) (stops : Text) (head : Head) :
    (head.attemptNode allowance stops).answer = head.readNode allowance stops := by
  induction allowance generalizing stops head with
  | zero => rfl
  | succ allowance ih =>
      rw [readNode_succ]
      rcases head.sight_cases stops with
        hnear | ⟨hnear, ⟨gap, hfound⟩ | ⟨gap, bracket, next, hfound⟩⟩
      · rw [attemptNode, sight_of_near hnear, if_pos hnear]
        exact Attempt.answer_ofAnswer _ _
      · have hempty := isEmpty_of_ahead_stop ((ahead_seek _ head).trans hfound)
        rw [attemptNode, sight_of_stop hnear hfound, if_neg hnear, if_pos hempty]
        exact Attempt.answer_ofAnswer _ _
      · have hahead := (ahead_seek _ head).trans hfound
        obtain ⟨inside, hadvance, -, hsight⟩ := sight_of_opening hnear hfound
        rw [attemptNode, hsight, if_neg hnear, isEmpty_of_ahead_step hahead,
          if_neg Bool.false_ne_true, front_of_ahead hahead, hadvance]
        dsimp only
        rw [Attempt.answer_andThen, answer_attemptChildren (ih _)]
        simp only [Attempt.answer_ofAnswer, bind, Except.bind, Bracket.ofOpening_opening]

theorem answer_attemptNodes (limit rounds : Nat) (head : Head) :
    (head.attemptNodes limit rounds).answer = head.readNodes limit rounds := by
  induction rounds generalizing head with
  | zero => rfl
  | succ rounds ih =>
      have hrest : ∀ (node : Node) (place : Head),
          Attempt.answer (if place.isEmpty then ⟨.ok (some [node]), place, []⟩
            else (attemptNodes limit rounds place).map (node :: ·)) = (do
              if place.isEmpty then
                return .ofValue [node] place
              else
                let rest ← readNodes limit rounds place
                return rest.map (node :: ·)) := by
        intro node place
        split
        · rfl
        · rw [Attempt.answer_map, ih]
      rw [attemptNodes, Attempt.answer_andThen, Attempt.answer_orAbandoned, answer_attemptNode,
        readNodes]
      simp only [hrest, bind_assoc, pure_bind]

end Head

/-! ## Requests -/

/-- An attempt at what a request asks for, not deeper than some limit. -/
def Request.attempt (limit : Nat) : Request → Head → Attempt Forest
  | node stops, head => (head.attemptNode limit stops).map ([·])
  | forest, head => head.attemptForest limit
  | advance, head => .ofAnswer head (advance.answer limit head)

theorem Request.answer_attempt (limit : Nat) (request : Request) (head : Head) :
    (request.attempt limit head).answer = request.answer limit head := by
  cases request with
  | node stops =>
      rw [attempt, Attempt.answer_map, Head.answer_attemptNode]
      rfl
  | forest => exact Head.answer_attemptNodes limit _ head
  | advance => exact Attempt.answer_ofAnswer head _

/-- The heads that requests made of a text leave, one after the other, whatever each of
them comes to and however deep it may go. -/
inductive Head.LeftBy (text : Text) : List Request → Head → Prop
  | start : LeftBy text [] (Head.ofText text)
  | request {requests : List Request} {head : Head} (left : LeftBy text requests head)
      (request : Request) (limit : Nat) :
      LeftBy text (requests ++ [request]) (request.attempt limit head).head

end Bracketed
