import Bracketed.Node.Basic
import Bracketed.Proofs.Search

/-!
# Roles of characters

An unquoted character opens a bracket, closes the innermost open one, is a comma,
or is plain text.  A closing bracket of another kind, or one where nothing is open,
is plain.  Scanning a text keeps a stack of the open brackets; how high the stack
gets is how deep the text nests.
-/

namespace Bracketed

inductive Role
  | opening (bracket : Bracket)
  | closing
  | comma
  | plain
deriving DecidableEq, Repr

/-- The characters of a text that are not quoted. -/
def Text.unquoted (text : Text) : Text :=
  (Trail.ofText text).chars

namespace Role

/-- The role of an unquoted character inside some open brackets, innermost first. -/
def of (opened : List Bracket) (c : Char) : Role :=
  match Bracket.ofOpening? c with
  | some bracket => opening bracket
  | none =>
      if c = separator then comma
      else if opened.head?.map Bracket.closing = some c then closing
      else plain

end Role

namespace Bracket

/-- The open brackets behind an unquoted character. -/
def scan (opened : List Bracket) (c : Char) : List Bracket :=
  match Role.of opened c with
  | .opening bracket => bracket :: opened
  | .closing => opened.tail
  | .comma => opened
  | .plain => opened

/-- The greatest number of open brackets while some unquoted characters are scanned. -/
def peak (opened : List Bracket) : Text → Nat
  | [] => opened.length
  | c :: rest => max opened.length (peak (scan opened c) rest)

/-- The characters that end a leaf inside some open brackets. -/
def stops : List Bracket → Text
  | [] => [separator]
  | bracket :: _ => [separator, bracket.closing]

/-- The characters that are not plain inside some open brackets. -/
def boundary (opened : List Bracket) : Text :=
  openings ++ stops opened

end Bracket

/-- How many brackets of a text are open at once. -/
def Text.nesting (text : Text) : Nat :=
  Bracket.peak [] text.unquoted

namespace Role

theorem of_opening (opened : List Bracket) (bracket : Bracket) :
    of opened bracket.opening = opening bracket := by
  cases bracket <;> rfl

theorem of_separator (opened : List Bracket) : of opened separator = comma :=
  rfl

/-- Only the comma itself has the role of a comma. -/
theorem ne_separator {opened : List Bracket} {c : Char} (h : of opened c ≠ comma) :
    c ≠ separator := by
  rintro rfl
  exact h rfl

theorem of_closing (bracket : Bracket) (outer : List Bracket) :
    of (bracket :: outer) bracket.closing = closing := by
  cases bracket <;> rfl

theorem eq_of_opening {opened : List Bracket} {c : Char} {bracket : Bracket}
    (h : of opened c = opening bracket) : c = bracket.opening := by
  unfold of at h
  split at h
  · next hfind =>
      cases h
      have hopening : bracket.opening = c := by simpa using List.find?_some hfind
      exact hopening.symm
  · split at h
    · cases h
    · split at h <;> cases h

theorem eq_of_comma {opened : List Bracket} {c : Char} (h : of opened c = comma) :
    c = separator := by
  unfold of at h
  split at h
  · cases h
  · split at h
    · assumption
    · split at h <;> cases h

theorem eq_of_closing {opened : List Bracket} {c : Char} (h : of opened c = closing) :
    ∃ bracket outer, opened = bracket :: outer ∧ c = bracket.closing := by
  unfold of at h
  split at h
  · cases h
  · split at h
    · cases h
    · split at h
      · next hclosing =>
          cases opened with
          | nil => cases hclosing
          | cons bracket outer => exact ⟨bracket, outer, rfl, (Option.some.inj hclosing).symm⟩
      · cases h

theorem opening_mem_boundary (opened : List Bracket) (bracket : Bracket) :
    bracket.opening ∈ Bracket.boundary opened :=
  List.mem_append_left _ (Bracket.mem_openings_iff.2 ⟨bracket, rfl⟩)

theorem separator_mem_boundary (opened : List Bracket) :
    separator ∈ Bracket.boundary opened := by
  apply List.mem_append_right
  cases opened <;> exact List.mem_cons_self

theorem closing_mem_boundary (bracket : Bracket) (outer : List Bracket) :
    bracket.closing ∈ Bracket.boundary (bracket :: outer) := by
  apply List.mem_append_right
  exact List.mem_cons_of_mem _ List.mem_cons_self

theorem of_eq_plain_iff {opened : List Bracket} {c : Char} :
    of opened c = plain ↔ c ∉ Bracket.boundary opened := by
  constructor
  · intro h hmem
    rcases List.mem_append.1 hmem with hopening | hstop
    · obtain ⟨bracket, rfl⟩ := Bracket.mem_openings_iff.1 hopening
      cases (of_opening opened bracket).symm.trans h
    · cases opened with
      | nil =>
          cases List.mem_singleton.1 hstop
          cases h
      | cons bracket outer =>
          rcases List.mem_cons.1 hstop with rfl | hclosing
          · cases h
          · cases List.mem_singleton.1 hclosing
            cases (of_closing bracket outer).symm.trans h
  · intro h
    cases hrole : of opened c with
    | plain => rfl
    | opening bracket =>
        rw [eq_of_opening hrole] at h
        exact absurd (opening_mem_boundary opened bracket) h
    | comma =>
        rw [eq_of_comma hrole] at h
        exact absurd (separator_mem_boundary opened) h
    | closing =>
        obtain ⟨bracket, outer, rfl, rfl⟩ := eq_of_closing hrole
        exact absurd (closing_mem_boundary bracket outer) h

end Role

theorem ofChar?_separator : Mark.ofChar? separator = none := by
  decide

namespace Bracket

theorem ofChar?_opening (bracket : Bracket) : Mark.ofChar? bracket.opening = none := by
  cases bracket <;> rfl

theorem ofChar?_closing (bracket : Bracket) : Mark.ofChar? bracket.closing = none := by
  cases bracket <;> rfl

theorem opening_ne_separator (bracket : Bracket) : bracket.opening ≠ separator := by
  cases bracket <;> decide

theorem closing_ne_separator (bracket : Bracket) : bracket.closing ≠ separator := by
  cases bracket <;> decide

theorem scan_opening (opened : List Bracket) (bracket : Bracket) :
    scan opened bracket.opening = bracket :: opened := by
  rw [scan, Role.of_opening]

theorem scan_closing (bracket : Bracket) (outer : List Bracket) :
    scan (bracket :: outer) bracket.closing = outer := by
  rw [scan, Role.of_closing, List.tail_cons]

theorem scan_of_plain {opened : List Bracket} {c : Char} (h : Role.of opened c = .plain) :
    scan opened c = opened := by
  rw [scan, h]

theorem length_le_peak (opened : List Bracket) (chars : Text) :
    opened.length ≤ peak opened chars := by
  cases chars with
  | nil => exact Nat.le_refl _
  | cons c rest => exact Nat.le_max_left _ _

theorem peak_scan_le (opened : List Bracket) (c : Char) (rest : Text) :
    peak (scan opened c) rest ≤ peak opened (c :: rest) :=
  Nat.le_max_right _ _

theorem peak_found (opened : List Bracket) (trail : Trail) :
    peak opened (trail.found (boundary opened)).chars = peak opened trail.chars := by
  induction trail with
  | stop gap => rfl
  | step gap char next ih =>
      by_cases hchar : char ∈ boundary opened
      · rw [Trail.found_step_of_mem hchar]
      · rw [Trail.found_step_of_not_mem hchar, ih, Trail.chars, peak,
          scan_of_plain (Role.of_eq_plain_iff.2 hchar)]
        exact (Nat.max_eq_right (length_le_peak opened next.chars)).symm

end Bracket

end Bracketed
