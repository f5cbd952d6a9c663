import Bracketed.Proofs.Quoting

/-!
# Places

Every unquoted character of a text has a place.  A trail yields the places of its characters
by counting gaps; a machine that reads one character at a time, and only keeps track of the
quote that it is in, finds the same places.
-/

namespace Bracketed

/-- The unquoted characters and their places, when the trail begins at `start`. -/
def Trail.places (start : Nat) : Trail → List (Nat × Char)
  | stop _ => []
  | step gap char next =>
      (start + gap.length, char) :: next.places (start + gap.length + 1)

/-- The unquoted characters of a text and their places. -/
def Text.places (text : Text) : List (Nat × Char) :=
  (Trail.ofText text).places 0

namespace Trail

variable {trail : Trail} {start place : Nat} {c : Char}

theorem le_of_mem_places (h : (place, c) ∈ trail.places start) : start ≤ place := by
  induction trail generalizing start with
  | stop gap => cases h
  | step gap char next ih =>
      rcases List.mem_cons.1 h with hhere | hnext
      · cases hhere
        exact Nat.le_add_right _ _
      · have := ih hnext
        omega

theorem getElem?_of_mem_places (h : (place, c) ∈ trail.places start) :
    trail.text[place - start]? = some c := by
  induction trail generalizing start with
  | stop gap => cases h
  | step gap char next ih =>
      rcases List.mem_cons.1 h with hhere | hnext
      · cases hhere
        simp [text]
      · have hle := le_of_mem_places hnext
        have hplace : place - start = gap.length + (place - (start + gap.length + 1) + 1) := by
          omega
        rw [text, hplace, List.getElem?_append_right (Nat.le_add_right _ _),
          Nat.add_sub_cancel_left, List.getElem?_cons_succ]
        exact ih hnext

theorem places_widen (c : Char) (trail : Trail) (start : Nat) :
    (trail.widen c).places start = trail.places (start + 1) := by
  cases trail with
  | stop gap => rfl
  | step gap char next =>
      have hlength : start + (gap.length + 1) = start + 1 + gap.length := by omega
      rw [widen, places, places, List.length_cons, hlength]

end Trail

/-! ## One character at a time -/

/-- The characters from `start` on are read from here; the one at this place is unquoted. -/
def Quoting.ShowsAt (quoting : Quoting) (start : Nat) (text : Text) (place : Nat) : Prop :=
  ∃ c ∈ text[place - start]?, ((text.take (place - start)).foldl step quoting).Shows c

instance (quoting : Quoting) (start : Nat) (text : Text) (place : Nat) :
    Decidable (quoting.ShowsAt start text place) :=
  Option.decidableExistsMem text[place - start]?

namespace Quoting

variable {quoting : Quoting} {start place : Nat} {c : Char}

theorem showsAt_start (rest : Text) : quoting.ShowsAt start (c :: rest) start ↔ quoting.Shows c := by
  simp [ShowsAt]

theorem showsAt_cons_of_lt (h : start < place) (rest : Text) :
    quoting.ShowsAt start (c :: rest) place ↔
      (quoting.step c).ShowsAt (start + 1) rest place := by
  have hplace : place - start = place - (start + 1) + 1 := by omega
  rw [ShowsAt, ShowsAt, hplace, List.getElem?_cons_succ, List.take_succ_cons, List.foldl_cons]

/-- The machine finds the places of a trail. -/
theorem map_fst_places_trail (quoting : Quoting) (start : Nat) (text : Text) :
    ((quoting.trail text).places start).map Prod.fst =
      (List.range' start text.length).filter (quoting.ShowsAt start text ·) := by
  induction text generalizing quoting start with
  | nil => simp [trail_nil, Trail.places]
  | cons c rest ih =>
      have hrest := ih (quoting.step c) (start + 1)
      have hlater : (List.range' (start + 1) rest.length).filter
            ((quoting.step c).ShowsAt (start + 1) rest ·) =
          (List.range' (start + 1) rest.length).filter (quoting.ShowsAt start (c :: rest) ·) := by
        apply List.filter_congr
        intro place hmem
        have hlt : start < place := (List.mem_range'_1.1 hmem).1
        exact decide_eq_decide.2 (showsAt_cons_of_lt hlt rest).symm
      rw [hlater] at hrest
      rw [List.length_cons, List.range'_succ, List.filter_cons, ← hrest]
      by_cases hshows : quoting.Shows c
      · rw [trail_cons_of_shows hshows, if_pos (decide_eq_true ((showsAt_start rest).2 hshows))]
        rfl
      · have hstart : ¬ quoting.ShowsAt start (c :: rest) start := mt (showsAt_start rest).1 hshows
        rw [trail_cons_of_not_shows hshows, Trail.places_widen, if_neg (by simpa using hstart)]

end Quoting

end Bracketed
