import Bracketed.Proofs.Attempt
import Bracketed.Proofs.Walk

/-!
# Progress

Whatever an attempt comes to, it does not move the head back, and a forest that it reads
takes at least as many characters as it has nodes.  The place of the head alone does not
tell: a leaf of quoted text that lies before the head moves the start only.  The loops of the
reader end, after one round more than there are unquoted characters ahead at the latest.
-/

namespace Bracketed

namespace Head

/-- A head that follows another one is not before it. -/
theorem Follows.offset_le {first head : Head} (h : first.Follows head) :
    first.offset ≤ head.offset := by
  obtain ⟨passed, hplaces, hpassed⟩ := h.places
  cases passed with
  | nil =>
      rw [offset_eq_head?, offset_eq_head?, hplaces, h.precedes.ending_eq]
      exact Nat.le_refl _
  | cons visit passed =>
      have hoffset := first.offset_eq_head?
      rw [hplaces] at hoffset
      have hvisit := hpassed visit List.mem_cons_self
      have hstart := head.start_le_offset
      change first.offset = visit.1 at hoffset
      omega

theorem Follows.start_le {first head : Head} (h : first.Follows head) :
    first.start ≤ head.start := by
  obtain ⟨passed, -, hstart⟩ := h.precedes.passed
  omega

theorem start_seek_anchored (stops : Text) (head : Head) :
    (head.seek stops).anchored.start = head.start + (head.ahead.upTo stops).length := by
  change (head.seek stops).offset = _
  rw [offset, start_seek, ahead_seek, Trail.upTo, List.length_append, Nat.add_assoc]

theorem start_lt_of_advance {head after : Head} (h : head.advance = .ok after) :
    head.start < after.start := by
  have hstart := head.start_le_offset
  rcases head.places_cases with ⟨-, -, hadvance⟩ | ⟨c, next, -, hadvance, -, hnext, -⟩
  · cases hadvance.symm.trans h
  · cases hadvance.symm.trans h
    omega

end Head

theorem Node.size_pos (node : Node) : 0 < node.size := by
  cases node <;> exact Nat.succ_pos _

theorem Node.size_setComma (comma : Bool) (node : Node) : (node.setComma comma).size = node.size := by
  cases node <;> simp only [setComma, size]

/-! ## Attempts -/

/-- An attempt goes forward, and what it reads takes up as many characters as it counts. -/
structure Attempt.Advances {α : Type} (size : α → Nat) (head : Head) (attempt : Attempt α) :
    Prop where
  follows : head.Follows attempt.head
  takes : ∀ value, attempt.result = .ok (some value) → head.start + size value ≤ attempt.head.start

namespace Attempt

variable {α β : Type} {size : α → Nat} {head place : Head}

variable {events : List Event}

theorem advances_error (fault : Fault) (h : head.Follows place) :
    Advances size head ⟨.error fault, place, events⟩ where
  follows := h
  takes := by
    intro value hvalue
    cases hvalue

theorem advances_none (h : head.Follows place) :
    Advances size head ⟨.ok none, place, events⟩ where
  follows := h
  takes := by
    intro value hvalue
    cases hvalue

theorem advances_value {value : α} (h : head.Follows place)
    (hsize : head.start + size value ≤ place.start) :
    Advances size head ⟨.ok (some value), place, events⟩ where
  follows := h
  takes := by
    intro value' hvalue
    cases hvalue
    exact hsize

namespace Advances

variable {attempt : Attempt α}

/-- An attempt from a head further on, behind some characters that are taken already. -/
theorem behind {taken : Nat} (h : attempt.Advances size place) (hfollows : head.Follows place)
    (htaken : head.start + taken ≤ place.start) :
    attempt.Advances (fun value => taken + size value) head where
  follows := hfollows.trans h.follows
  takes := by
    intro value hvalue
    have := h.takes value hvalue
    omega

theorem map {size' : β → Nat} {f : α → β} (h : attempt.Advances size head)
    (hsize : ∀ value, size' (f value) = size value) : (attempt.map f).Advances size' head where
  follows := h.follows
  takes := by
    intro value hvalue
    obtain ⟨fault | _ | first, place, events⟩ := attempt
    · cases hvalue
    · cases hvalue
    · cases hvalue
      rw [hsize]
      exact h.takes first rfl

theorem andThen {size' : β → Nat} {next : α → Head → Attempt β} (h : attempt.Advances size head)
    (hnext : ∀ value place, head.Follows place → head.start + size value ≤ place.start →
      (next value place).Advances size' head) :
    (attempt.andThen next).Advances size' head := by
  obtain ⟨fault | _ | value, place, events⟩ := attempt
  · exact advances_error fault h.follows
  · exact advances_none h.follows
  · have hadvances := hnext value place h.follows (h.takes value rfl)
    exact ⟨hadvances.follows, hadvances.takes⟩

theorem orAbandoned (h : attempt.Advances size head) :
    attempt.orAbandoned.Advances size head := by
  obtain ⟨hresult, hhead⟩ := attempt.orAbandoned_result_head
  constructor
  · rw [hhead]
    exact h.follows
  · rw [hresult, hhead]
    exact h.takes

end Advances

end Attempt

namespace Head

variable {head place : Head}

theorem advances_readComma {node : Node} (h : head.Follows place)
    (hsize : head.start + node.size ≤ place.start) :
    (Attempt.ofAnswer place (place.readComma node)).Advances Node.size head := by
  rw [readComma_eq]
  split
  · cases hadvance : place.advance with
    | error fault => exact Attempt.advances_error fault h
    | ok next =>
        have hnext := Follows.advance hadvance
        refine Attempt.advances_value (h.trans hnext) ?_
        rw [Node.size_setComma]
        exact Nat.le_trans hsize hnext.start_le
  · exact Attempt.advances_value h hsize

/-- A leaf takes a character at least, for it is not empty. -/
theorem advances_readLeaf {lead : Text} (h : head.Follows place)
    (hlead : head.start + lead.length ≤ place.start) :
    (Attempt.ofAnswer place (place.readLeaf lead)).Advances Node.size head := by
  cases lead with
  | nil => exact Attempt.advances_none h
  | cons c rest =>
      rw [readLeaf_of_ne_nil _ (List.cons_ne_nil c rest)]
      refine advances_readComma h ?_
      rw [List.length_cons] at hlead
      rw [Node.size]
      omega

/-- The children of a group, if every child goes forward. -/
theorem advances_attemptChildren {child : Head → Attempt Node} (bracket : Bracket) (lead : Text)
    (hchild : ∀ place, (child place).Advances Node.size place) (rounds : Nat) (head : Head) :
    (head.attemptChildren bracket lead child rounds).Advances Node.sizeList head := by
  induction rounds generalizing head with
  | zero => exact Attempt.advances_error _ (.refl head)
  | succ rounds ih =>
      cases hahead : head.ahead with
      | stop gap =>
          rw [attemptChildren_of_stop _ _ _ hahead]
          exact Attempt.advances_none (.refl head)
      | step gap c rest =>
          by_cases hc : c = bracket.closing
          · subst hc
            obtain ⟨after, hadvance, -, hattempt⟩ :=
              attemptChildren_of_closing lead child rounds hahead
            have hstart := start_lt_of_advance hadvance
            rw [hattempt]
            refine Attempt.advances_value (.advance hadvance) ?_
            split
            · exact Nat.le_of_lt hstart
            · exact hstart
          · rw [attemptChildren_of_child _ _ _ hahead hc]
            apply (hchild head).andThen
            intro node place hfollows htaken
            exact ((ih place).behind hfollows htaken).map fun nodes => rfl

/-- What comes first is further on, a leaf by its text and a group by its bracket. -/
inductive Sight.Begins (head : Head) : Sight → Prop
  | leaf {lead : Text} {place : Head} (follows : head.Follows place)
      (start_eq : place.start = head.start + lead.length) : Begins head (.leaf lead place)
  | group {lead : Text} {bracket : Bracket} {inside : Head} (follows : head.Follows inside)
      (start_lt : head.start < inside.start) : Begins head (.group lead bracket inside)

theorem exists_begins (head : Head) (stops : Text) :
    ∃ sight, head.sight stops = .ok sight ∧ sight.Begins head := by
  rcases head.sight_cases stops with
    hnear | ⟨hnear, ⟨gap, hfound⟩ | ⟨gap, bracket, next, hfound⟩⟩
  · exact ⟨_, sight_of_near hnear,
      .leaf ((Follows.seek stops head).trans (.anchored _)) (start_seek_anchored stops head)⟩
  · exact ⟨_, sight_of_stop hnear hfound,
      .leaf ((Follows.seek _ head).trans (.anchored _)) (start_seek_anchored _ head)⟩
  · obtain ⟨inside, hadvance, -, hsight⟩ := sight_of_opening hnear hfound
    have hseek := Follows.seek Bracket.openings head
    exact ⟨_, hsight, .group (hseek.trans (.advance hadvance))
      (Nat.lt_of_le_of_lt hseek.start_le (start_lt_of_advance hadvance))⟩

theorem advances_attemptNode (allowance : Nat) (stops : Text) (head : Head) :
    (head.attemptNode allowance stops).Advances Node.size head := by
  induction allowance generalizing stops head with
  | zero => exact Attempt.advances_error _ (.refl head)
  | succ allowance ih =>
      obtain ⟨sight, hsight, hbegins⟩ := head.exists_begins stops
      rw [attemptNode, hsight]
      cases hbegins with
      | leaf follows start_eq => exact advances_readLeaf follows (Nat.le_of_eq start_eq.symm)
      | @group lead bracket inside follows start_lt =>
          have hchildren := advances_attemptChildren bracket lead (ih [separator, bracket.closing])
            (inside.ahead.length + 1) inside
          have htaken : head.start + 1 ≤ inside.start := start_lt
          apply (hchildren.behind follows htaken).andThen
          intro nodes place hfollows htaken
          apply advances_readComma hfollows
          rw [Node.size]
          omega

theorem advances_attemptNodes (limit rounds : Nat) (head : Head) :
    (head.attemptNodes limit rounds).Advances Node.sizeList head := by
  induction rounds generalizing head with
  | zero => exact Attempt.advances_error _ (.refl head)
  | succ rounds ih =>
      apply (head.advances_attemptNode limit [separator]).orAbandoned.andThen
      intro node place hfollows htaken
      split
      · exact Attempt.advances_value hfollows htaken
      · exact ((ih place).behind hfollows htaken).map fun nodes => rfl

end Head

namespace Head

variable {head : Head}

theorem start_add_size_le_of_readNode {limit : Nat} {stops : Text} {node : Node}
    {reading : Reading Node} (h : head.readNode limit stops = .ok reading)
    (hnode : reading.outcome = some node) : head.start + node.size ≤ reading.head.start := by
  have hadvances := head.advances_attemptNode limit stops
  obtain ⟨hresult, hhead⟩ :=
    Attempt.result_head_of_answer ((answer_attemptNode limit stops head).trans h)
  rw [← hhead]
  exact hadvances.takes node (hresult.trans (congrArg _ hnode))

/-- Every node of a forest takes a character, at any depth. -/
theorem start_add_sizeList_le_of_readForest {limit : Nat} {reading : Reading Forest}
    (h : head.readForest limit = .ok reading) :
    head.start + Node.sizeList reading.forest ≤ reading.head.start := by
  have hadvances := head.advances_attemptNodes limit (head.ahead.length + 1)
  obtain ⟨hresult, hhead⟩ :=
    Attempt.result_head_of_answer ((answer_attemptNodes limit _ head).trans h)
  rw [← hhead]
  unfold Reading.forest
  cases houtcome : reading.outcome with
  | none => exact hadvances.follows.start_le
  | some forest => exact hadvances.takes forest (hresult.trans (congrArg _ houtcome))

end Head

theorem Request.follows_attempt (limit : Nat) (request : Request) (head : Head) :
    head.Follows (request.attempt limit head).head := by
  cases request with
  | node stops => exact (head.advances_attemptNode limit stops).follows
  | forest => exact (head.advances_attemptNodes limit _).follows
  | advance =>
      rw [attempt, answer]
      cases hadvance : head.advance with
      | error fault => exact .refl head
      | ok next => exact .advance hadvance

namespace Head.LeftBy

variable {text : Text} {requests : List Request} {head : Head}

theorem follows (left : LeftBy text requests head) : (Head.ofText text).Follows head := by
  induction left with
  | start => exact .refl _
  | request left request limit ih => exact ih.trans (request.follows_attempt limit _)

theorem source_eq (left : LeftBy text requests head) : head.source = ⟨0, text⟩ :=
  left.follows.precedes.source_eq

theorem ending_eq (left : LeftBy text requests head) : head.ending = text.length :=
  left.follows.precedes.ending_eq.trans (ending_eq_length (Nat.zero_le _))

theorem start_le_length (left : LeftBy text requests head) : head.start ≤ text.length := by
  have hunread := head.offset_add_unread
  rw [left.ending_eq] at hunread
  have hstart := head.start_le_offset
  omega

end Head.LeftBy

/-! ## Rounds -/

/-- A reading goes on alike in two ways that agree wherever the first one does not stall. -/
theorem Reading.andThen_congr {α β : Type} {reading : Except Fault (Reading α)}
    (settle : Reading α → Reading α) {next next' : α → Head → Except Fault (Reading β)}
    (hnext : ∀ value place, next value place ≠ .error .stalled →
      next' value place = next value place)
    (h : (do let first ← reading; (settle first).andThen next) ≠ .error .stalled) :
    (do let first ← reading; (settle first).andThen next') =
      (do let first ← reading; (settle first).andThen next) := by
  rcases reading with fault | first
  · rfl
  · change (settle first).andThen next ≠ .error .stalled at h
    change (settle first).andThen next' = (settle first).andThen next
    unfold Reading.andThen at h ⊢
    cases houtcome : (settle first).outcome with
    | none => rfl
    | some value =>
        rw [houtcome] at h
        dsimp only at h ⊢
        have hmoves : next value (settle first).head ≠ .error .stalled := by
          intro hstalled
          apply h
          rw [hstalled]
          rfl
        rw [hnext value _ hmoves]

namespace Head

variable {head : Head}

/-- More rounds come to the same for children that are read in fewer. -/
theorem readChildren_of_le {bracket : Bracket} {lead : Text}
    {child : Head → Except Fault (Reading Node)} {rounds more : Nat} (hle : rounds ≤ more)
    (h : head.readChildren bracket lead child rounds ≠ .error .stalled) :
    head.readChildren bracket lead child more = head.readChildren bracket lead child rounds := by
  induction rounds generalizing head more with
  | zero => exact absurd rfl h
  | succ rounds ih =>
      obtain ⟨more, rfl⟩ := Nat.exists_eq_add_one_of_ne_zero (Nat.ne_zero_of_lt hle)
      have hle' := Nat.le_of_succ_le_succ hle
      cases hahead : head.ahead with
      | stop gap => rw [readChildren_of_stop hahead, readChildren_of_stop hahead]
      | step gap c next =>
          by_cases hc : c = bracket.closing
          · rw [readChildren, readChildren, front_of_ahead hahead]
            simp only [bind, Except.bind, if_pos hc]
          · rw [readChildren_of_child _ _ _ hahead hc] at h ⊢
            rw [readChildren_of_child _ _ _ hahead hc]
            refine Reading.andThen_congr id ?_ h
            intro node place hmoves
            have hrest : place.readChildren bracket lead child rounds ≠ .error .stalled := by
              intro hstalled
              apply hmoves
              rw [hstalled]
              rfl
            rw [ih hle' hrest]

theorem readChildren_ne_stalled (bracket : Bracket) (lead : Text) (limit : Nat) {rounds : Nat}
    (h : head.ahead.length < rounds) :
    head.readChildren bracket lead (readNode limit [separator, bracket.closing]) rounds ≠
      .error .stalled := by
  have hreads := @reads_children [] [] head (1 + limit)
    (readNode limit [separator, bracket.closing]) ⟨[], lead, bracket⟩
    (fun _ _ henters => reads_node henters limit) rounds h
  dsimp only at hreads
  intro hstalled
  rw [hstalled] at hreads
  cases hreads

theorem readNodes_of_le {limit rounds more : Nat} (hle : rounds ≤ more)
    (h : head.readNodes limit rounds ≠ .error .stalled) :
    head.readNodes limit more = head.readNodes limit rounds := by
  induction rounds generalizing head more with
  | zero => exact absurd rfl h
  | succ rounds ih =>
      obtain ⟨more, rfl⟩ := Nat.exists_eq_add_one_of_ne_zero (Nat.ne_zero_of_lt hle)
      have hle' := Nat.le_of_succ_le_succ hle
      rw [readNodes] at h ⊢
      rw [readNodes]
      refine Reading.andThen_congr Reading.orAbandoned ?_ h
      intro node place hmoves
      by_cases hempty : place.isEmpty = true
      · rw [if_pos hempty, if_pos hempty]
      · have hrest : place.readNodes limit rounds ≠ .error .stalled := by
          intro hstalled
          apply hmoves
          rw [if_neg hempty, hstalled]
          rfl
        rw [if_neg hempty, if_neg hempty, ih hle' hrest]

theorem readForest_ne_stalled (limit : Nat) (head : Head) :
    head.readForest limit ≠ .error .stalled := by
  intro hstalled
  rcases head.returns_readForest limit with ⟨hdeep, -⟩ | ⟨reading, hread, -⟩
  · cases hdeep.symm.trans hstalled
  · cases hread.symm.trans hstalled

/-- Wherever requests have left a head, whether answered or broken off, it lies within its
text.  A node moves its start on, and no attempt at a node moves it back or out of the text.
The loops over nodes and over children end: the rounds that the reader allows are enough, and
more would come to the same.  A forest takes at least as many characters as it has nodes. -/
theorem LeftBy.progress {text : Text} {requests : List Request}
    (left : LeftBy text requests head) :
    head.start ≤ head.offset ∧ head.offset ≤ text.length ∧
      (∀ limit stops,
        let attempt := head.attemptNode limit stops
        attempt.answer = head.readNode limit stops ∧
          head.offset ≤ attempt.head.offset ∧
          attempt.head.start ≤ attempt.head.offset ∧ attempt.head.offset ≤ text.length ∧
          ∀ node reading, head.readNode limit stops = .ok reading →
            reading.outcome = some node → head.start < reading.head.start) ∧
      (∀ limit, head.readForest limit ≠ .error .stalled ∧
        ∀ rounds, head.ahead.length < rounds →
          head.readNodes limit rounds = head.readForest limit) ∧
      (∀ (inside : Head) (bracket : Bracket) (lead : Text) (limit rounds : Nat),
        let children := fun rounds =>
          inside.readChildren bracket lead (readNode limit [separator, bracket.closing]) rounds
        children (inside.ahead.length + 1) ≠ .error .stalled ∧
          (inside.ahead.length < rounds →
            children rounds = children (inside.ahead.length + 1))) ∧
      ∀ limit reading, head.readForest limit = .ok reading →
        head.start + Node.sizeList reading.forest ≤ text.length := by
  have hwithin : ∀ place : Head, head.Follows place → place.offset ≤ text.length := by
    intro place hfollows
    have hending := hfollows.precedes.ending_eq.trans left.ending_eq
    have hunread := place.offset_add_unread
    omega
  refine ⟨head.start_le_offset, hwithin head (.refl head), ?_, ?_, ?_, ?_⟩
  · intro limit stops attempt
    have hfollows := (head.advances_attemptNode limit stops).follows
    refine ⟨answer_attemptNode limit stops head, hfollows.offset_le,
      attempt.head.start_le_offset, hwithin _ hfollows, ?_⟩
    intro node reading hread hnode
    have htakes := start_add_size_le_of_readNode hread hnode
    have hpos := node.size_pos
    omega
  · intro limit
    refine ⟨head.readForest_ne_stalled limit, ?_⟩
    intro rounds hrounds
    exact readNodes_of_le hrounds (head.readForest_ne_stalled limit)
  · intro inside bracket lead limit rounds children
    have hended := inside.readChildren_ne_stalled bracket lead limit (Nat.lt_succ_self _)
    exact ⟨hended, fun hrounds => readChildren_of_le hrounds hended⟩
  · intro limit reading hread
    have hfollows := (head.advances_attemptNodes limit (head.ahead.length + 1)).follows
    obtain ⟨-, hhead⟩ :=
      Attempt.result_head_of_answer ((answer_attemptNodes limit _ head).trans hread)
    have hwithin' := hwithin _ hfollows
    rw [hhead] at hwithin'
    calc head.start + Node.sizeList reading.forest
      _ ≤ reading.head.start := start_add_sizeList_le_of_readForest hread
      _ ≤ reading.head.offset := reading.head.start_le_offset
      _ ≤ text.length := hwithin'

/-- A node that breaks off inside its group leaves the head behind the bracket, and quoted text
before it.  The next node is that text: it moves the start but not the place of the head. -/
theorem LeftBy.progress_broken :
    ∃ head next, LeftBy ['(', '\x22', ')', '\x22', 'a', ')'] [.node [',']] head ∧
      head.start = 1 ∧ head.offset = 4 ∧
      head.readNode 1 ['a'] = .ok (.ofValue (.leaf ['\x22', ')', '\x22'] false) next) ∧
      head.start < next.start ∧ next.offset = 4 := by
  have left : LeftBy ['(', '\x22', ')', '\x22', 'a', ')'] [.node [',']] _ :=
    LeftBy.start.request (.node [',']) 1
  obtain ⟨-, -, hnode, -⟩ := left.progress
  obtain ⟨-, -, -, -, hmoves⟩ := hnode 1 ['a']
  exact ⟨_, Head.fresh ⟨0, ['(', '\x22', ')', '\x22', 'a', ')']⟩ 4, left, rfl, rfl, rfl,
    hmoves _ _ rfl rfl, rfl⟩

end Head

end Bracketed
