import Bracketed.Node.Draft
import Bracketed.Proofs.Agreement
import Bracketed.Proofs.LaidOut

/-!
# Sessions

A text may be read piece by piece: one node that ends at any characters, all the nodes
to the end, or one character, in any order, each from where the last request left the
head.  Whatever was asked for before, every request is answered or finds the groups
nested too deep; no operation of a head ever fails, and no reader gets stuck.
-/

namespace Bracketed

inductive Request
  /-- One node, ended by one of these characters unless it is a group. -/
  | node (stops : Text)
  /-- All nodes to the end. -/
  | forest
  /-- One unquoted character further. -/
  | advance
deriving DecidableEq, Repr

/-- The nodes that a request reads, if any, and where it leaves the head, if groups may nest
so deep. -/
def Request.answer (limit : Nat) : Request → Head → Except Fault (Reading Forest)
  | node stops, head => do
      let reading ← head.readNode limit stops
      return reading.map ([·])
  | forest, head => head.readForest limit
  | advance, head => do return .ofValue [] (← head.advance)

/-- Requests made of one text, one after the other, and the head that they lead to.  Each may
have a limit of its own. -/
inductive Session (text : Text) : List Request → Head → Prop
  | start : Session text [] (Head.ofText text)
  | answered {requests : List Request} {head : Head} {reading : Reading Forest}
      (session : Session text requests head) (limit : Nat) (request : Request)
      (answer : request.answer limit head = .ok reading) :
      Session text (requests ++ [request]) reading.head
  /-- A request that finds groups nested too deep may leave the head anywhere. -/
  | tooDeep {requests : List Request} {head : Head} (session : Session text requests head)
      (limit : Nat) (request : Request) (answer : request.answer limit head = .error .tooDeep)
      (next : Head) (source_eq : next.source = head.source) :
      Session text (requests ++ [request]) next

/-! ## Nodes with any ends -/

/-- What is passed over on the way to an opening bracket does not nest. -/
theorem Bracket.peak_found_openings (stops : Text) (trail : Trail) :
    peak [] (trail.found (openings ++ stops)).chars = peak [] trail.chars := by
  induction trail with
  | stop gap => rfl
  | step gap c next ih =>
      by_cases hmem : c ∈ openings ++ stops
      · rw [Trail.found_step_of_mem hmem]
      · have hscan : scan [] c = [] := by
          unfold scan
          cases hrole : Role.of [] c with
          | opening bracket =>
              rw [Role.eq_of_opening hrole] at hmem
              exact absurd (List.mem_append_left _ (mem_openings_iff.2 ⟨bracket, rfl⟩)) hmem
          | closing => rfl
          | comma => rfl
          | plain => rfl
        rw [Trail.found_step_of_not_mem hmem, ih, Trail.chars, peak, hscan]
        exact (Nat.zero_max _).symm

/-- Inside the first group no more brackets are open at once than on the whole way. -/
theorem Bracket.peak_inside_le {stops gap : Text} {trail next : Trail} {bracket : Bracket}
    (h : trail.found (openings ++ stops) = .step gap bracket.opening next) :
    peak [bracket] next.chars ≤ peak [] trail.chars := by
  have hscan := peak_scan_le [] bracket.opening next.chars
  rw [scan_opening] at hscan
  rw [← peak_found_openings stops trail, h]
  exact hscan

namespace Head

/-- A reading comes to an answer further on, unless more groups than the limit are open at
once among the characters ahead. -/
def Returns {α : Type} (limit : Nat) (head : Head) (result : Except Fault (Reading α)) : Prop :=
  (result = .error .tooDeep ∧ limit ≤ Bracket.peak [] head.ahead.chars) ∨
    ∃ reading, result = .ok reading ∧ head.Precedes reading.head

variable {head place : Head} {limit : Nat}

theorem returns_readComma (node : Node) (h : head.Precedes place) :
    head.Returns limit (place.readComma node) := by
  right
  cases hplace : place.ahead with
  | stop gap =>
      refine ⟨_, readComma_of_ne node ?_, h⟩
      rw [hplace]
      intro hhead
      cases hhead
  | step gap c next =>
      by_cases hcomma : c = separator
      · subst hcomma
        obtain ⟨after, hread, -, hafter⟩ := readComma_of_comma node hplace
        exact ⟨_, hread, h.trans hafter⟩
      · refine ⟨_, readComma_of_ne node ?_, h⟩
        rw [hplace]
        intro hhead
        exact hcomma (Option.some.inj hhead)

theorem returns_readLeaf (lead : Text) (h : head.Precedes place) :
    head.Returns limit (place.readLeaf lead) := by
  by_cases hlead : lead = []
  · subst hlead
    exact .inr ⟨_, readLeaf_nil place, h⟩
  · rw [readLeaf_of_ne_nil _ hlead]
    exact returns_readComma _ h

/-- A node is read from any head on, whatever may end it. -/
theorem returns_readNode (allowance : Nat) (stops : Text) (head : Head) :
    head.Returns allowance (head.readNode allowance stops) := by
  cases allowance with
  | zero => exact .inl ⟨rfl, Nat.zero_le _⟩
  | succ allowance =>
      cases hfound : head.ahead.found (Bracket.openings ++ stops) with
      | stop gap =>
          obtain ⟨place, hprecedes, -, hread⟩ := readNode_of_stop hfound
          rw [hread]
          exact returns_readLeaf _ hprecedes
      | step gap c next =>
          by_cases hc : c ∈ Bracket.openings
          · obtain ⟨bracket, rfl⟩ := Bracket.mem_openings_iff.1 hc
            obtain ⟨inside, hprecedes, rfl, hread⟩ := readNode_of_opening hfound
            rw [hread]
            -- inside the group it does not matter any more what ends the node
            generalize head.ahead.upTo (Bracket.openings ++ stops) = lead
            have hchildren := @reads_children [] [] inside (1 + allowance)
              (readNode allowance [separator, bracket.closing]) ⟨[], lead, bracket⟩
              (fun _ _ henters => reads_node henters allowance) _ (Nat.lt_succ_self _)
            dsimp only at hchildren
            generalize inside.readChildren bracket lead
              (readNode allowance [separator, bracket.closing]) (inside.ahead.length + 1) =
                result at hchildren ⊢
            cases hchildren with
            | tooDeep deep =>
                refine .inl ⟨rfl, ?_⟩
                rw [Nat.add_comm]
                exact Nat.le_trans deep (Bracket.peak_inside_le hfound)
            | refused precedes run_eq => exact .inr ⟨_, rfl, hprecedes.trans precedes⟩
            | @read nodes place precedes leads length_le =>
                rw [Reading.ok_ofValue_bind]
                exact returns_readComma _ (hprecedes.trans precedes)
          · obtain ⟨place, hprecedes, -, hread⟩ := readNode_of_end hfound hc
            rw [hread]
            exact returns_readLeaf _ hprecedes

theorem returns_readForest (limit : Nat) (head : Head) :
    head.Returns limit (head.readForest limit) := by
  rcases readNodes_cases (Pass.enters_initial _) limit (Nat.lt_succ_self _) with
    hdeep | ⟨reading, -, hread, hprecedes, -⟩
  · exact .inl hdeep
  · exact .inr ⟨reading, hread, hprecedes⟩

end Head

/-! ## Requests -/

namespace Request

variable {limit : Nat} {head : Head} {gap : Text}

theorem answer_advance_of_stop (limit : Nat) (h : head.ahead = .stop gap) :
    advance.answer limit head = .error .pastEnd := by
  rw [answer, Head.advance_of_ahead_stop h]
  rfl

/-- Every request is answered, but for a step beyond the end. -/
theorem returns_answer {request : Request} (limit : Nat)
    (h : request = .advance → head.isEmpty = false) :
    head.Returns limit (request.answer limit head) := by
  cases request with
  | node stops =>
      rw [answer]
      rcases Head.returns_readNode limit stops head with
        ⟨hdeep, hpeak⟩ | ⟨reading, hread, hprecedes⟩
      · rw [hdeep]
        exact .inl ⟨rfl, hpeak⟩
      · rw [hread]
        exact .inr ⟨_, rfl, hprecedes⟩
  | forest => exact head.returns_readForest limit
  | advance =>
      cases hahead : head.ahead with
      | stop gap =>
          have hempty := Head.isEmpty_of_ahead_stop hahead
          rw [h rfl] at hempty
          cases hempty
      | step gap c next =>
          obtain ⟨after, hadvance, -, hprecedes⟩ := Head.advance_of_ahead hahead
          rw [answer, hadvance]
          exact .inr ⟨_, rfl, hprecedes⟩

theorem precedes_of_answer {request : Request} {reading : Reading Forest}
    (h : request.answer limit head = .ok reading) : head.Precedes reading.head := by
  have hadvance : request = .advance → head.isEmpty = false := by
    rintro rfl
    cases hahead : head.ahead with
    | stop gap => cases (answer_advance_of_stop limit hahead).symm.trans h
    | step gap c next => exact Head.isEmpty_of_ahead_step hahead
  rcases returns_answer limit hadvance with ⟨hdeep, -⟩ | ⟨reading', hread, hprecedes⟩
  · cases hdeep.symm.trans h
  · cases hread.symm.trans h
    exact hprecedes

end Request

namespace Session

variable {text : Text} {requests : List Request} {head : Head}

/-- A session never leaves its text. -/
theorem source_eq (session : Session text requests head) : head.source = ⟨0, text⟩ := by
  induction session with
  | start => rfl
  | answered session limit request answer ih =>
      exact (Request.precedes_of_answer answer).source_eq.trans ih
  | tooDeep session limit request answer next source_eq ih => exact source_eq.trans ih

/-- What is ahead of a session is the rest of its text. -/
theorem peak_ahead (session : Session text requests head) :
    Bracket.peak [] head.ahead.chars = Text.nesting (text.drop head.start) := by
  have hahead := head.ahead_eq
  rw [session.source_eq] at hahead
  rw [hahead]
  rfl

end Session

/-- Whatever a session has asked for, its next request is answered, unless the rest of the
text nests too deep, and the nodes that it reads can all be built.  So a text can be
formatted within every width. -/
theorem Session.answers (text : Text) (limit : Nat) :
    (∀ requests head, Session text requests head → ∀ request : Request,
      (request = .advance → head.isEmpty = false) →
        (request.answer limit head = .error .tooDeep ∧
          limit ≤ Text.nesting (text.drop head.start)) ∨
        ∃ reading, request.answer limit head = .ok reading ∧
          Session text (requests ++ [request]) reading.head ∧
          Draft.checkList (Draft.ofNodes reading.forest) = .ok reading.forest) ∧
    ∀ width : Int,
      (Forest.read limit text = .error .tooDeep ∧ limit ≤ text.nesting ∧
        (format limit text width).text = text) ∨
      ∃ reading, Forest.read limit text = .ok reading ∧
        (format limit text width).text =
          if reading.forest = [] then text else reading.forest.render width := by
  constructor
  · intro requests head session request hadvance
    rcases Request.returns_answer limit hadvance with ⟨hdeep, hpeak⟩ | ⟨reading, hread, -⟩
    · rw [session.peak_ahead] at hpeak
      exact .inl ⟨hdeep, hpeak⟩
    · exact .inr ⟨reading, hread, session.answered limit request hread,
        Draft.checkList_ofNodes _⟩
  · intro width
    rcases Forest.read_cases limit text with ⟨hdeep, hnesting⟩ | ⟨reading, hread, -, -⟩
    · refine .inl ⟨hdeep, hnesting, format_of_forest_nil ?_ width⟩
      unfold examine
      rw [hdeep]
    · refine .inr ⟨reading, hread, ?_⟩
      have hforest := forest_examine hread
      by_cases hnil : reading.forest = []
      · rw [if_pos hnil, format_of_forest_nil (hforest.trans hnil)]
      · rw [if_neg hnil, format_of_forest_ne_nil (by rwa [hforest]), hforest]

/-- A blank leaf, a step over the text in front of a bracket, and a group that is never
closed. -/
theorem Session.answers_unclosed :
    ∃ head reading, Session ['x', '(', 'y'] [.node ['x', '('], .advance] head ∧
      Request.answer 2 (.node []) head = .ok reading ∧
      reading.outcome = none ∧ reading.events = [.unclosed .round []] := by
  have hfirst : Session ['x', '(', 'y'] [.node ['x', '(']] (Head.ofText ['x', '(', 'y']) :=
    @Session.answered _ [] _ ⟨none, Head.ofText ['x', '(', 'y'], []⟩ .start 2 _ rfl
  have session : Session ['x', '(', 'y'] [.node ['x', '('], .advance]
      (Head.fresh ⟨0, ['x', '(', 'y']⟩ 1) :=
    @Session.answered _ [.node ['x', '(']] _
      (.ofValue [] (Head.fresh ⟨0, ['x', '(', 'y']⟩ 1)) hfirst 2 _ rfl
  have hshallow : ¬ 2 ≤ Text.nesting ['(', 'y'] := by decide +kernel
  have hanswer : (Request.answer 2 (.node []) (Head.fresh ⟨0, ['x', '(', 'y']⟩ 1)).map
      (fun reading => (reading.outcome, reading.events)) =
        .ok (none, [.unclosed .round []]) := rfl
  rcases (Session.answers ['x', '(', 'y'] 2).1 _ _ session (.node []) (fun h => by cases h) with
    ⟨-, hdeep⟩ | ⟨reading, hread, -, -⟩
  · exact absurd hdeep hshallow
  · rw [hread] at hanswer
    obtain ⟨houtcome, hevents⟩ := Prod.mk.inj (Except.ok.inj hanswer)
    exact ⟨_, reading, session, hread, houtcome, hevents⟩

end Bracketed
