import Bracketed.Proofs.Ahead
import Bracketed.Proofs.Places

/-!
# Walks

A head that is advanced again and again visits the unquoted characters of its text, one after
the other, and then the end.  They are the places where a machine that reads one character at
a time is outside any quote and no mark stands.  However a head is moved, it stays on these
places, and looking for a character it stops at the first of them that has it.
-/

namespace Bracketed

namespace Trail

variable {trail : Trail} {start : Nat} {stops : Text}

/-- Seeking passes over places without what is looked for, up to one that has it. -/
theorem exists_places_seek (stops : Text) (start : Nat) (trail : Trail) :
    ∃ passed, trail.places start =
        passed ++ (trail.seek stops start).2.places (trail.seek stops start).1 ∧
      (∀ visit ∈ passed, visit.1 < (trail.seek stops start).1 ∧ visit.2 ∉ stops) ∧
      ∀ visit ∈ ((trail.seek stops start).2.places (trail.seek stops start).1).head?,
        visit.2 ∈ stops := by
  induction trail generalizing start with
  | stop gap =>
      refine ⟨[], rfl, ?_, ?_⟩
      · intro visit hmem
        cases hmem
      · intro visit hmem
        cases hmem
  | step gap char next ih =>
      by_cases hchar : char ∈ stops
      · rw [seek, if_pos hchar]
        refine ⟨[], rfl, ?_, ?_⟩
        · intro visit hmem
          cases hmem
        · intro visit hmem
          cases hmem
          exact hchar
      · obtain ⟨passed, hplaces, hpassed, hfirst⟩ := ih (start + gap.length + 1)
        rw [seek, if_neg hchar]
        refine ⟨(start + gap.length, char) :: passed, ?_, ?_, hfirst⟩
        · rw [places, hplaces]
          rfl
        · intro visit hmem
          rcases List.mem_cons.1 hmem with rfl | hmem
          · have hle := start_le_seek stops (start + gap.length + 1) next
            exact ⟨hle, hchar⟩
          · exact hpassed visit hmem

end Trail

namespace Head

/-- The unquoted characters ahead and their places. -/
def places (head : Head) : List (Nat × Char) :=
  head.ahead.places head.start

variable {head after : Head}

theorem getElem?_of_mem_places {place : Nat} {c : Char} (h : (place, c) ∈ head.places) :
    head.source.text[place]? = some c := by
  have hahead := Trail.getElem?_of_mem_places h
  have hle := Trail.le_of_mem_places h
  rw [text_ahead, List.getElem?_drop, Nat.add_sub_cancel' hle] at hahead
  exact hahead

/-- A head stands on the first place ahead, or at the end. -/
theorem places_cases (head : Head) :
    (head.places = [] ∧ head.offset = head.ending ∧ head.advance = .error .pastEnd) ∨
      ∃ c after, head.places = (head.offset, c) :: after.places ∧ head.advance = .ok after ∧
        head.Precedes after ∧ after.start = head.offset + 1 ∧
        after.ahead.length < head.ahead.length := by
  cases hahead : head.ahead with
  | stop gap =>
      refine .inl ⟨?_, ?_, advance_of_ahead_stop hahead⟩
      · rw [places, hahead]
        rfl
      · rw [offset, ending, hahead]
        rfl
  | step gap c next =>
      obtain ⟨after, hadvance, hafter, hprecedes⟩ := advance_of_ahead hahead
      have hstart : after.start = head.offset + 1 := by
        have hending := hprecedes.ending_eq
        rw [ending, ending, hafter, hahead, Trail.text, List.length_append,
          List.length_cons] at hending
        rw [offset, hahead, Trail.gap]
        omega
      refine .inr ⟨c, after, ?_, hadvance, hprecedes, hstart, ?_⟩
      · rw [places, places, hahead, hafter, hstart, offset, hahead]
        rfl
      · rw [hafter]
        exact Nat.lt_succ_self _

theorem offset_le_of_mem_places {visit : Nat × Char} (h : visit ∈ head.places) :
    head.offset ≤ visit.1 := by
  rcases head.places_cases with ⟨hplaces, -, -⟩ | ⟨c, after, hplaces, -, -, hstart, -⟩
  · rw [hplaces] at h
    cases h
  · rw [hplaces] at h
    rcases List.mem_cons.1 h with rfl | hmem
    · exact Nat.le_refl _
    · have hle := Trail.le_of_mem_places hmem
      omega

/-- No mark stands at a head. -/
theorem ofChar?_of_getElem? {c : Char} (h : head.source.text[head.offset]? = some c) :
    Mark.ofChar? c = none := by
  have hregular : head.ahead.Regular .outside := by
    rw [head.ahead_eq]
    exact Trail.regular_ofText _
  have hlength := (List.getElem?_eq_some_iff.1 h).1
  cases hahead : head.ahead with
  | stop gap =>
      have htext := congrArg List.length head.text_ahead
      rw [offset] at hlength
      rw [hahead, Trail.text, List.length_drop] at htext
      rw [hahead, Trail.gap] at hlength
      omega
  | step gap char next =>
      have hmem : (head.offset, char) ∈ head.places := by
        rw [places, offset, hahead]
        exact List.mem_cons_self
      rw [hahead] at hregular
      rw [getElem?_of_mem_places hmem] at h
      cases h
      exact hregular.unquoted

theorem offset_eq_head? (head : Head) :
    head.offset = (head.places.head?.map Prod.fst).getD head.ending := by
  rcases head.places_cases with ⟨hplaces, hoffset, -⟩ | ⟨c, after, hplaces, -⟩
  · rw [hplaces, hoffset]
    rfl
  · rw [hplaces]
    rfl

/-! ## Repeated advance -/

theorem length_ahead_of_advance (h : head.advance = .ok after) :
    after.ahead.length < head.ahead.length := by
  rcases head.places_cases with ⟨-, -, hadvance⟩ | ⟨c, next, -, hadvance, -, -, hlength⟩
  · cases hadvance.symm.trans h
  · cases hadvance.symm.trans h
    exact hlength

/-- The head, and those that it becomes when it is advanced again and again. -/
def walk (head : Head) : List Head :=
  match _ : head.advance with
  | .ok after => head :: after.walk
  | .error _ => [head]
termination_by head.ahead.length
decreasing_by exact length_ahead_of_advance ‹_›

theorem walk_of_advance (h : head.advance = .ok after) : head.walk = head :: after.walk := by
  rw [walk]
  split
  · next next hnext =>
      cases hnext.symm.trans h
      rfl
  · next fault hfault => cases hfault.symm.trans h

theorem walk_of_error {fault : Fault} (h : head.advance = .error fault) : head.walk = [head] := by
  rw [walk]
  split
  · next next hnext => cases hnext.symm.trans h
  · rfl

/-- A walk visits every place ahead, in order, and then the end. -/
theorem map_offset_walk (head : Head) :
    head.walk.map offset = head.places.map Prod.fst ++ [head.ending] := by
  rcases head.places_cases with
    ⟨hplaces, hoffset, hadvance⟩ | ⟨c, after, hplaces, hadvance, hprecedes, -, hlength⟩
  · rw [walk_of_error hadvance, hplaces, List.map_singleton, hoffset]
    rfl
  · rw [walk_of_advance hadvance, hplaces, List.map_cons, map_offset_walk after,
      hprecedes.ending_eq]
    rfl
termination_by head.ahead.length

end Head

/-! ## The places that the machine shows -/

namespace Text

/-- The places from `start` on where a machine that starts there is outside any quote and no
mark stands. -/
def visible (text : Text) (start : Nat) : List Nat :=
  (List.range' start (text.length - start)).filter
    (Quoting.outside.ShowsAt start (text.drop start) ·)

/-- One of some characters stands at this place. -/
def HasAt (text stops : Text) (place : Nat) : Prop :=
  ∃ c ∈ text[place]?, c ∈ stops

instance (text stops : Text) (place : Nat) : Decidable (text.HasAt stops place) :=
  Option.decidableExistsMem text[place]?

end Text

theorem Head.map_fst_places (head : Head) :
    head.places.map Prod.fst = head.source.text.visible head.start := by
  have hplaces := Quoting.outside.map_fst_places_trail head.start
    (head.source.text.drop head.start)
  rw [List.length_drop] at hplaces
  rw [Head.places, head.ahead_eq, Text.visible, ← hplaces]
  rfl

/-! ## Reached heads -/

namespace Head

/-- The heads that a head at `start` can be moved to.  A head is a value: a copy of it is the
head itself, and moving it leaves it as it is. -/
inductive Reached (source : Source) (start : Nat) : Head → Prop
  | fresh : Reached source start (Head.fresh source start)
  | advance {head after : Head} (reached : Reached source start head)
      (advance : head.advance = .ok after) : Reached source start after
  | anchored {head : Head} (reached : Reached source start head) :
      Reached source start head.anchored
  | seek {head : Head} (reached : Reached source start head) (stops : Text) :
      Reached source start (head.seek stops)

/-- A head further on in the same text has the last places ahead of it. -/
structure Follows (first head : Head) : Prop where
  precedes : first.Precedes head
  places : ∃ passed, first.places = passed ++ head.places ∧ ∀ visit ∈ passed, visit.1 < head.start

namespace Follows

theorem refl (head : Head) : Follows head head where
  precedes := .refl head
  places := by
    refine ⟨[], rfl, ?_⟩
    intro visit hmem
    cases hmem

theorem trans {first second third : Head} (h : Follows first second)
    (h' : Follows second third) : Follows first third where
  precedes := h.precedes.trans h'.precedes
  places := by
    obtain ⟨passed, hplaces, hpassed⟩ := h.places
    obtain ⟨passed', hplaces', hpassed'⟩ := h'.places
    have hstart : second.start ≤ third.start := by
      obtain ⟨text, -, hstart⟩ := h'.precedes.passed
      omega
    refine ⟨passed ++ passed', ?_, ?_⟩
    · rw [hplaces, hplaces', List.append_assoc]
    · intro visit hmem
      rcases List.mem_append.1 hmem with hmem | hmem
      · exact Nat.lt_of_lt_of_le (hpassed visit hmem) hstart
      · exact hpassed' visit hmem

theorem advance {head after : Head} (h : head.advance = .ok after) : Follows head after := by
  rcases head.places_cases with ⟨-, -, hadvance⟩ | ⟨c, next, hplaces, hadvance, hprecedes, hstart, -⟩
  · cases hadvance.symm.trans h
  · cases hadvance.symm.trans h
    refine ⟨hprecedes, [(head.offset, c)], hplaces, ?_⟩
    intro visit hmem
    rw [List.mem_singleton.1 hmem, hstart]
    exact Nat.lt_succ_self _

theorem anchored (head : Head) : Follows head head.anchored where
  precedes := head.precedes_anchored
  places := by
    refine ⟨[], ?_, ?_⟩
    · rw [List.nil_append, Head.places, Head.places, ahead_anchored]
      cases hahead : head.ahead <;>
        simp [Head.anchored, offset, hahead, Trail.dropGap, Trail.gap, Trail.places]
    · intro visit hmem
      cases hmem

theorem seek (stops : Text) (head : Head) : Follows head (head.seek stops) where
  precedes := head.precedes_seek stops
  places := by
    obtain ⟨passed, hplaces, hpassed, -⟩ :=
      Trail.exists_places_seek stops head.start head.ahead
    exact ⟨passed, hplaces, fun visit hmem => (hpassed visit hmem).1⟩

end Follows

theorem Reached.follows {source : Source} {start : Nat} {head : Head}
    (reached : Reached source start head) : Follows (Head.fresh source start) head := by
  induction reached with
  | fresh => exact .refl _
  | advance reached hadvance ih => exact ih.trans (.advance hadvance)
  | anchored reached ih => exact ih.trans (.anchored _)
  | seek reached stops ih => exact ih.trans (.seek stops _)

/-- Looking for a character, a head stops at the first place ahead that has it. -/
theorem Follows.offset_seek {first head : Head} (h : Follows first head) (stops : Text) :
    (head.seek stops).offset =
      ((first.places.map Prod.fst).find? fun place =>
        head.offset ≤ place ∧ first.source.text.HasAt stops place).getD first.ending := by
  obtain ⟨before, hbefore, hearlier⟩ := h.places
  obtain ⟨passed, hplaces, hpassed, hfound⟩ :=
    Trail.exists_places_seek stops head.start head.ahead
  change head.places = passed ++ (head.seek stops).places at hplaces
  change ∀ visit ∈ (head.seek stops).places.head?, visit.2 ∈ stops at hfound
  have hending : (head.seek stops).ending = first.ending :=
    (head.precedes_seek stops).ending_eq.trans h.precedes.ending_eq
  have hsource := h.precedes.source_eq
  generalize hseek : (head.seek stops).places = rest at hplaces hfound
  -- what the place of an unquoted character ahead has is that character
  have hchar : ∀ visit ∈ head.places,
      first.source.text.HasAt stops visit.1 ↔ visit.2 ∈ stops := by
    intro visit hmem
    rw [Text.HasAt, ← hsource, getElem?_of_mem_places hmem]
    simp
  have hnone : ((before ++ passed).map Prod.fst).find? (fun place =>
      head.offset ≤ place ∧ first.source.text.HasAt stops place) = none := by
    rw [List.find?_eq_none]
    intro place hmem
    obtain ⟨visit, hvisit, rfl⟩ := List.mem_map.1 hmem
    rw [decide_eq_true_eq]
    rintro ⟨hle, hstops⟩
    rcases List.mem_append.1 hvisit with hvisit | hvisit
    · have hlt := hearlier visit hvisit
      have := head.start_le_offset
      omega
    · have hahead : visit ∈ head.places := by
        rw [hplaces]
        exact List.mem_append_left _ hvisit
      exact (hpassed visit hvisit).2 ((hchar visit hahead).1 hstops)
  rw [hbefore, hplaces, ← List.append_assoc, List.map_append, List.find?_append, hnone,
    offset_eq_head?, hending, hseek]
  cases rest with
  | nil => rfl
  | cons visit rest =>
      have hahead : visit ∈ head.places := by
        rw [hplaces]
        exact List.mem_append_right _ List.mem_cons_self
      have hstops := (hchar visit hahead).2 (hfound visit rfl)
      rw [List.map_cons, List.find?_cons_of_pos]
      · rfl
      · exact decide_eq_true ⟨offset_le_of_mem_places hahead, hstops⟩

/-- A head that is advanced again and again visits the places that the machine shows from its
start on, in order, and then the end.  However it is moved, it does not stand on a mark and
stays within the text, forgetting the gap before it leaves it in place, and looking for a
character it stops at the first of these places from its own on that has it, or at the end. -/
theorem walk_visible {source : Source} {start : Nat} (h : start ≤ source.text.length) :
    (fresh source start).walk.map offset = source.text.visible start ++ [source.text.length] ∧
      ∀ head, Reached source start head →
        head.source = source ∧ head.start ≤ head.offset ∧ head.offset ≤ source.text.length ∧
          (∀ c ∈ source.text[head.offset]?, Mark.ofChar? c = none) ∧
          head.anchored.offset = head.offset ∧
          ∀ stops, (head.seek stops).offset =
            ((source.text.visible start).find? fun place =>
              head.offset ≤ place ∧ source.text.HasAt stops place).getD source.text.length := by
  have hending : (fresh source start).ending = source.text.length := ending_eq_length h
  have hplaces : (fresh source start).places.map Prod.fst = source.text.visible start :=
    map_fst_places _
  constructor
  · rw [map_offset_walk, hplaces, hending]
  · intro head reached
    have hfollows := reached.follows
    have hsource : head.source = source := hfollows.precedes.source_eq
    have hlength : head.ending = source.text.length := hfollows.precedes.ending_eq.trans hending
    refine ⟨hsource, head.start_le_offset, ?_, ?_, head.offset_anchored, ?_⟩
    · rw [← hlength, ← head.offset_add_unread]
      exact Nat.le_add_right _ _
    · intro c hc
      rw [← hsource] at hc
      exact ofChar?_of_getElem? hc
    · intro stops
      have hseek := hfollows.offset_seek stops
      rwa [hplaces, hending] at hseek

/-- A walk that starts inside what is a quote for the whole text: the backslash is unquoted
there, two spans of different marks follow, and the last one is never closed. -/
theorem walk_visible_unclosed :
    let source : Source := ⟨0, ['x', '\x22', '\x27', '\\', '\x22', '\x22', '\x60', '\\', '\x60', ',',
      '\x27', '\\']⟩
    3 ≤ source.text.length ∧ (fresh source 3).walk.map offset = [3, 9, 12] ∧
      ((fresh source 3).seek [',']).anchored.offset = 9 := by
  intro source
  have hstart : 3 ≤ source.text.length := by decide
  have hvisible : source.text.visible 3 = [3, 9] := by decide
  obtain ⟨hwalk, hreached⟩ := walk_visible hstart
  obtain ⟨-, -, -, -, -, hseek⟩ := hreached _ .fresh
  obtain ⟨-, -, -, -, hanchored, -⟩ := hreached _ (.seek .fresh [','])
  rw [hvisible] at hwalk
  refine ⟨hstart, hwalk, hanchored.trans ((hseek [',']).trans ?_)⟩
  rw [hvisible]
  decide

end Head

end Bracketed
