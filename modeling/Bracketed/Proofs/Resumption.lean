import Bracketed.Proofs.Progress

/-!
# Taking up a text

A head remembers nothing but its text and its start.  What is read from a head on is what
is read from the beginning of the text that is ahead of it, and the head that is left is as
far behind the one as behind the other.  The two runs are kept side by side: at any time
their heads have the same trail ahead, and the one is further on by the same number of
characters.
-/

namespace Bracketed

/-! ## Two heads -/

/-- The outer head has ahead of it what the inner one has, so many characters further on in a
text that is so much longer. -/
structure Head.Shifted (shift : Nat) (inner outer : Head) : Prop where
  ahead_eq : outer.ahead = inner.ahead
  start_eq : outer.start = shift + inner.start
  length_eq : outer.source.text.length = shift + inner.source.text.length

/-- A report as it is made so many characters further on. -/
def Event.behind (shift : Nat) : Event → Event
  | abandoned offset length => .abandoned (shift + offset) (shift + length)
  | event => event

namespace Head.Shifted

variable {shift : Nat} {inner outer inner' outer' : Head}

theorem offset_eq (h : inner.Shifted shift outer) : outer.offset = shift + inner.offset := by
  rw [offset, offset, h.ahead_eq, h.start_eq, Nat.add_assoc]

theorem isEmpty_eq (h : inner.Shifted shift outer) : outer.isEmpty = inner.isEmpty := by
  rw [isEmpty, isEmpty, h.ahead_eq]

/-- A head and one at the beginning of the text ahead of it. -/
theorem ofText (head : Head) (h : head.start ≤ head.source.text.length) :
    (Head.ofText (head.source.text.drop head.start)).Shifted head.start head where
  ahead_eq := head.ahead_eq
  start_eq := rfl
  length_eq := by
    change _ = _ + (head.source.text.drop head.start).length
    rw [List.length_drop, Nat.add_sub_cancel' h]

/-- Heads that pass over the same text stay as far apart. -/
theorem of_precedes (h : inner.Shifted shift outer) (hinner : inner.Precedes inner')
    (houter : outer.Precedes outer') (hahead : outer'.ahead = inner'.ahead) :
    inner'.Shifted shift outer' where
  ahead_eq := hahead
  start_eq := by
    have hends := hinner.ending_eq
    have hends' := houter.ending_eq
    rw [ending, ending] at hends
    rw [ending, ending, hahead, h.ahead_eq, h.start_eq] at hends'
    omega
  length_eq := by
    rw [hinner.source_eq, houter.source_eq]
    exact h.length_eq

theorem anchored (h : inner.Shifted shift outer) : inner.anchored.Shifted shift outer.anchored :=
  h.of_precedes inner.precedes_anchored outer.precedes_anchored (by
    rw [ahead_anchored, ahead_anchored, h.ahead_eq])

theorem seek (h : inner.Shifted shift outer) (stops : Text) :
    (inner.seek stops).Shifted shift (outer.seek stops) :=
  h.of_precedes (inner.precedes_seek stops) (outer.precedes_seek stops) (by
    rw [ahead_seek, ahead_seek, h.ahead_eq])

/-- Both heads can be advanced, or neither can. -/
theorem advance (h : inner.Shifted shift outer) :
    (inner.advance = .error .pastEnd ∧ outer.advance = .error .pastEnd) ∨
      ∃ next next', inner.advance = .ok next ∧ outer.advance = .ok next' ∧
        next.Shifted shift next' := by
  cases hahead : inner.ahead with
  | stop gap =>
      left
      constructor
      · exact advance_of_ahead_stop hahead
      · exact advance_of_ahead_stop (h.ahead_eq.trans hahead)
  | step gap c rest =>
      right
      obtain ⟨next, hadvance, hnext, hprecedes⟩ := advance_of_ahead hahead
      obtain ⟨next', hadvance', hnext', hprecedes'⟩ :=
        advance_of_ahead (h.ahead_eq.trans hahead)
      exact ⟨next, next', hadvance, hadvance',
        h.of_precedes hprecedes hprecedes' (hnext'.trans hnext.symm)⟩

end Head.Shifted

/-! ## Two attempts -/

/-- Both attempts come to the same and report the same, and leave heads that far apart. -/
structure Attempt.Shifted {α : Type} (shift : Nat) (inner outer : Attempt α) : Prop where
  result_eq : outer.result = inner.result
  head : inner.head.Shifted shift outer.head
  events_eq : outer.events = inner.events.map (Event.behind shift)

namespace Attempt.Shifted

variable {α β : Type} {shift : Nat} {inner outer : Attempt α}

theorem map (h : inner.Shifted shift outer) (f : α → β) :
    (inner.map f).Shifted shift (outer.map f) where
  result_eq := by
    rw [Attempt.map, Attempt.map, h.result_eq]
  head := h.head
  events_eq := h.events_eq

theorem andThen {next : α → Head → Attempt β} (h : inner.Shifted shift outer)
    (hnext : ∀ value place place', Head.Shifted shift place place' →
      (next value place).Shifted shift (next value place')) :
    (inner.andThen next).Shifted shift (outer.andThen next) := by
  unfold Attempt.andThen
  rw [h.result_eq]
  rcases inner.result with fault | _ | value
  · exact ⟨rfl, h.head, h.events_eq⟩
  · exact ⟨rfl, h.head, h.events_eq⟩
  · have hlater := hnext value _ _ h.head
    refine ⟨hlater.result_eq, hlater.head, ?_⟩
    dsimp only
    rw [List.map_append, h.events_eq, hlater.events_eq]

/-- A text is abandoned so much further on in a text that is so much longer. -/
theorem orAbandoned (h : inner.Shifted shift outer) :
    inner.orAbandoned.Shifted shift outer.orAbandoned := by
  obtain ⟨result, place, events⟩ := inner
  obtain ⟨result', place', events'⟩ := outer
  obtain ⟨hresult, hplace, hevents⟩ := h
  cases hresult
  rcases result with fault | _ | value
  · exact ⟨rfl, hplace, hevents⟩
  · refine ⟨rfl, hplace, ?_⟩
    change events' ++ [Event.abandoned place'.offset place'.source.text.length] =
      (events ++ [Event.abandoned place.offset place.source.text.length]).map (Event.behind shift)
    rw [List.map_append, ← hevents, hplace.offset_eq, hplace.length_eq]
    rfl
  · exact ⟨rfl, hplace, hevents⟩

end Attempt.Shifted

namespace Head.Shifted

variable {shift : Nat} {inner outer : Head}

theorem readComma (h : inner.Shifted shift outer) (node : Node) :
    (Attempt.ofAnswer inner (inner.readComma node)).Shifted shift
      (Attempt.ofAnswer outer (outer.readComma node)) := by
  rw [readComma_eq, readComma_eq, front?_eq_head?, front?_eq_head?, h.ahead_eq]
  split
  · rcases h.advance with ⟨hadvance, hadvance'⟩ | ⟨next, next', hadvance, hadvance', hnext⟩
    · rw [hadvance, hadvance']
      exact ⟨rfl, h, rfl⟩
    · rw [hadvance, hadvance']
      exact ⟨rfl, hnext, rfl⟩
  · exact ⟨rfl, h, rfl⟩

theorem readLeaf (h : inner.Shifted shift outer) (lead : Text) :
    (Attempt.ofAnswer inner (inner.readLeaf lead)).Shifted shift
      (Attempt.ofAnswer outer (outer.readLeaf lead)) := by
  cases lead with
  | nil => exact ⟨rfl, h, rfl⟩
  | cons c rest =>
      rw [readLeaf_of_ne_nil _ (List.cons_ne_nil c rest),
        readLeaf_of_ne_nil _ (List.cons_ne_nil c rest)]
      exact h.readComma _

/-- The children of a group, if every child is read alike. -/
theorem attemptChildren {child : Head → Attempt Node} (bracket : Bracket) (lead : Text)
    (hchild : ∀ place place', place.Shifted shift place' →
      (child place).Shifted shift (child place'))
    (rounds : Nat) (h : inner.Shifted shift outer) :
    (inner.attemptChildren bracket lead child rounds).Shifted shift
      (outer.attemptChildren bracket lead child rounds) := by
  induction rounds generalizing inner outer with
  | zero => exact ⟨rfl, h, rfl⟩
  | succ rounds ih =>
      cases hahead : inner.ahead with
      | stop gap =>
          rw [attemptChildren_of_stop _ _ _ hahead,
            attemptChildren_of_stop _ _ _ (h.ahead_eq.trans hahead)]
          exact ⟨rfl, h, rfl⟩
      | step gap c rest =>
          have hahead' := h.ahead_eq.trans hahead
          by_cases hc : c = bracket.closing
          · subst hc
            obtain ⟨next, hadvance, -, hinner⟩ :=
              attemptChildren_of_closing lead child rounds hahead
            obtain ⟨next', hadvance', -, houter⟩ :=
              attemptChildren_of_closing lead child rounds hahead'
            rw [hinner, houter]
            refine ⟨rfl, ?_, rfl⟩
            rcases h.advance with ⟨hstuck, -⟩ | ⟨after, after', hafter, hafter', hshifted⟩
            · cases hstuck.symm.trans hadvance
            · cases hafter.symm.trans hadvance
              cases hafter'.symm.trans hadvance'
              exact hshifted
          · rw [attemptChildren_of_child _ _ _ hahead hc, attemptChildren_of_child _ _ _ hahead' hc]
            apply (hchild _ _ h).andThen
            intro node place place' hplace
            exact (ih hplace).map _

/-- What the inner head sees the outer one sees, so many characters further on. -/
inductive Sight (shift : Nat) : Head.Sight → Head.Sight → Prop
  | leaf {place place' : Head} (lead : Text) (h : place.Shifted shift place') :
      Sight shift (.leaf lead place) (.leaf lead place')
  | group {inside inside' : Head} (lead : Text) (bracket : Bracket)
      (h : inside.Shifted shift inside') :
      Sight shift (.group lead bracket inside) (.group lead bracket inside')

theorem exists_sight (h : inner.Shifted shift outer) (stops : Text) :
    ∃ first second, inner.sight stops = .ok first ∧ outer.sight stops = .ok second ∧
      Sight shift first second := by
  have hahead := h.ahead_eq
  rcases inner.sight_cases stops with
    hnear | ⟨hnear, ⟨gap, hfound⟩ | ⟨gap, bracket, next, hfound⟩⟩
  · have hinner := sight_of_near hnear
    rw [← hahead] at hnear
    have houter := sight_of_near hnear
    rw [hahead] at houter
    exact ⟨_, _, hinner, houter, .leaf _ (h.seek stops).anchored⟩
  · have hinner := sight_of_stop hnear hfound
    rw [← hahead] at hnear hfound
    have houter := sight_of_stop hnear hfound
    rw [hahead] at houter
    exact ⟨_, _, hinner, houter, .leaf _ (h.seek Bracket.openings).anchored⟩
  · obtain ⟨inside, hadvance, -, hinner⟩ := sight_of_opening hnear hfound
    rw [← hahead] at hnear hfound
    obtain ⟨inside', hadvance', -, houter⟩ := sight_of_opening hnear hfound
    rw [hahead] at houter
    refine ⟨_, _, hinner, houter, .group _ bracket ?_⟩
    rcases (h.seek Bracket.openings).advance with
      ⟨hstuck, -⟩ | ⟨after, after', hafter, hafter', hshifted⟩
    · cases hstuck.symm.trans hadvance
    · cases hafter.symm.trans hadvance
      cases hafter'.symm.trans hadvance'
      exact hshifted

theorem attemptNode (allowance : Nat) (stops : Text) (h : inner.Shifted shift outer) :
    (inner.attemptNode allowance stops).Shifted shift (outer.attemptNode allowance stops) := by
  induction allowance generalizing stops inner outer with
  | zero => exact ⟨rfl, h, rfl⟩
  | succ allowance ih =>
      obtain ⟨first, second, hfirst, hsecond, hsight⟩ := h.exists_sight stops
      rw [Head.attemptNode, Head.attemptNode, hfirst, hsecond]
      cases hsight with
      | leaf lead hplace => exact hplace.readLeaf lead
      | @group inside inside' lead bracket hinside =>
          dsimp only
          rw [hinside.ahead_eq]
          apply (attemptChildren bracket lead (fun _ _ => ih _) _ hinside).andThen
          intro nodes place place' hplace
          exact hplace.readComma _

theorem attemptNodes (limit rounds : Nat) (h : inner.Shifted shift outer) :
    (inner.attemptNodes limit rounds).Shifted shift (outer.attemptNodes limit rounds) := by
  induction rounds generalizing inner outer with
  | zero => exact ⟨rfl, h, rfl⟩
  | succ rounds ih =>
      apply (h.attemptNode limit [separator]).orAbandoned.andThen
      intro node place place' hplace
      rw [hplace.isEmpty_eq]
      split
      · exact ⟨rfl, hplace, rfl⟩
      · exact (ih hplace).map _

end Head.Shifted

/-! ## Requests -/

/-- Every request comes to the same for both heads. -/
theorem Head.Shifted.attempt {shift : Nat} {inner outer : Head} (h : inner.Shifted shift outer)
    (limit : Nat) (request : Request) :
    (request.attempt limit inner).Shifted shift (request.attempt limit outer) := by
  cases request with
  | node stops => exact (h.attemptNode limit stops).map _
  | forest =>
      rw [Request.attempt, Request.attempt, Head.attemptForest, Head.attemptForest, h.ahead_eq]
      exact h.attemptNodes limit _
  | advance =>
      rw [Request.attempt, Request.attempt, Request.answer, Request.answer]
      rcases h.advance with ⟨hadvance, hadvance'⟩ | ⟨next, next', hadvance, hadvance', hnext⟩
      · rw [hadvance, hadvance']
        exact ⟨rfl, h, rfl⟩
      · rw [hadvance, hadvance']
        exact ⟨rfl, hnext, rfl⟩

/-- Wherever requests have left a head, whether answered or broken off, the next one comes to
what it comes to at the beginning of the text that is ahead, reports the same of it, and leaves
the head as far behind as it leaves it there.  Unless it breaks off that is the answer to the
request. -/
theorem Head.LeftBy.attempt_eq_fresh {text : Text} {requests : List Request} {head : Head}
    (left : LeftBy text requests head) (request : Request) :
    (∀ limit place, (request.attempt limit place).answer = request.answer limit place) ∧
      ∀ limit,
        let here := request.attempt limit head
        let fresh := request.attempt limit (Head.ofText (text.drop head.start))
        here.result = fresh.result ∧
          here.head.start = head.start + fresh.head.start ∧
          here.head.offset = head.start + fresh.head.offset ∧
          here.events = fresh.events.map (Event.behind head.start) := by
  constructor
  · intro limit
    exact request.answer_attempt limit
  · intro limit here fresh
    have hwithin : head.start ≤ head.source.text.length := by
      rw [left.source_eq]
      exact left.start_le_length
    have hshifted := Shifted.ofText head hwithin
    rw [left.source_eq] at hshifted
    have hattempt := hshifted.attempt limit request
    exact ⟨hattempt.result_eq, hattempt.head.start_eq, hattempt.head.offset_eq,
      hattempt.events_eq⟩

/-- A blank leaf, a step over its comma, and a node that breaks off inside its group leave the
head behind a bracket and before quoted text.  From there on the bracket that closes the group
is text. -/
theorem Head.LeftBy.attempt_eq_fresh_broken :
    ∃ head, LeftBy [',', '(', '\x22', ')', '\x22', 'a', ')']
        [.node [','], .advance, .node [',']] head ∧
      head.start = 2 ∧
      (Request.attempt 1 .forest head).result =
        .ok (some [.leaf ['\x22', ')', '\x22', 'a', ')'] false]) ∧
      (Request.attempt 1 .forest head).head.offset = 7 := by
  obtain ⟨head, left, hstart⟩ :
      ∃ head, LeftBy [',', '(', '\x22', ')', '\x22', 'a', ')']
        [.node [','], .advance, .node [',']] head ∧ head.start = 2 :=
    ⟨_, ((LeftBy.start.request (.node [',']) 1).request .advance 1).request (.node [',']) 1, rfl⟩
  obtain ⟨-, hfresh⟩ := left.attempt_eq_fresh .forest
  obtain ⟨hresult, -, hoffset, -⟩ := hfresh 1
  rw [hstart] at hresult hoffset
  exact ⟨head, left, hstart, hresult.trans rfl, hoffset.trans rfl⟩

end Bracketed
