import Bracketed.Text.Basic
import Bracketed.Proofs.Quoting

/-!
# Trimming

Blanks are never quoted, begin no quote and are plain text everywhere.  So blanks may
be put before a text, or its first blanks dropped, without a change to how the rest of
it is read; and trimming a text at both ends forgets all such changes.
-/

namespace Bracketed

theorem Mark.isBlank_char (mark : Mark) : Text.isBlank mark.char = false := by
  cases mark <;> decide

theorem Bracket.isBlank_opening (bracket : Bracket) : Text.isBlank bracket.opening = false := by
  cases bracket <;> decide

theorem Bracket.isBlank_closing (bracket : Bracket) : Text.isBlank bracket.closing = false := by
  cases bracket <;> decide

theorem Mark.ofChar?_of_isBlank {c : Char} (h : Text.isBlank c = true) : ofChar? c = none := by
  cases hmark : ofChar? c with
  | none => rfl
  | some mark =>
      rw [← char_of_ofChar? hmark, mark.isBlank_char] at h
      cases h

/-- A blank is plain text inside any brackets. -/
theorem Role.of_isBlank {opened : List Bracket} {c : Char} (h : Text.isBlank c = true) :
    of opened c = plain := by
  cases hrole : of opened c with
  | plain => rfl
  | opening bracket =>
      rw [eq_of_opening hrole, bracket.isBlank_opening] at h
      cases h
  | comma =>
      rw [eq_of_comma hrole] at h
      cases h
  | closing =>
      obtain ⟨bracket, outer, -, rfl⟩ := eq_of_closing hrole
      rw [bracket.isBlank_closing] at h
      cases h

namespace Text

/-- A text of nothing but blanks. -/
def Blank (text : Text) : Prop :=
  ∀ c ∈ text, isBlank c = true

/-- The text without the blanks at its end. -/
def trimRight (text : Text) : Text :=
  (text.reverse.dropWhile isBlank).reverse

/-- The text without the blanks at its beginning and at its end. -/
def trim (text : Text) : Text :=
  text.trimLeft.trimRight

variable {opened : List Bracket} {blanks lead : Text}

theorem Blank.tail {c : Char} (h : Blank (c :: blanks)) : blanks.Blank :=
  fun c' hmem => h c' (List.mem_cons_of_mem c hmem)

/-! ## Blanks before a text -/

theorem Blank.unquoted_append (h : blanks.Blank) (text : Text) :
    (blanks ++ text).unquoted = blanks ++ text.unquoted := by
  induction blanks with
  | nil => rfl
  | cons c rest ih =>
      have hmark := Mark.ofChar?_of_isBlank (h c List.mem_cons_self)
      rw [List.cons_append, unquoted_cons hmark, ih h.tail, List.cons_append]

theorem Blank.closed_append_iff (h : blanks.Blank) (text : Text) :
    (blanks ++ text).Closed ↔ text.Closed := by
  induction blanks with
  | nil => rfl
  | cons c rest ih =>
      have hmark := Mark.ofChar?_of_isBlank (h c List.mem_cons_self)
      rw [List.cons_append, closed_cons_iff hmark, ih h.tail]

theorem Blank.closed (h : blanks.Blank) : blanks.Closed := by
  have hclosed := h.closed_append_iff []
  rw [List.append_nil] at hclosed
  exact hclosed.2 closed_nil

theorem Blank.unquoted (h : blanks.Blank) : blanks.unquoted = blanks := by
  have hunquoted := h.unquoted_append []
  rwa [List.append_nil, show Text.unquoted [] = [] from rfl, List.append_nil] at hunquoted

/-- Blanks before a text are no quoted text. -/
theorem Blank.not_quoted_append (h : blanks.Blank) (hne : blanks ≠ []) (text : Text) :
    ¬ (blanks ++ text).Quoted := by
  intro hquoted
  rw [Quoted, h.unquoted_append] at hquoted
  exact hne (List.append_eq_nil_iff.1 hquoted).1

theorem blank_takeWhile (text : Text) : Blank (text.takeWhile isBlank) := by
  intro c hmem
  exact List.all_eq_true.1 List.all_takeWhile c hmem

theorem unquoted_trimLeft_subset (text : Text) : text.trimLeft.unquoted ⊆ text.unquoted := by
  intro c hmem
  have hsplit := (blank_takeWhile text).unquoted_append text.trimLeft
  rw [trimLeft_append] at hsplit
  rw [hsplit]
  exact List.mem_append_right _ hmem

theorem Closed.trimLeft (h : lead.Closed) : lead.trimLeft.Closed := by
  rw [← trimLeft_append lead] at h
  exact ((blank_takeWhile lead).closed_append_iff _).1 h

/-! ## Trimmed texts -/

theorem Blank.trimLeft_append (h : blanks.Blank) (text : Text) :
    (blanks ++ text).trimLeft = text.trimLeft :=
  List.dropWhile_append_of_pos h

theorem trimLeft_trimLeft (text : Text) : text.trimLeft.trimLeft = text.trimLeft := by
  have hdropped := (blank_takeWhile text).trimLeft_append text.trimLeft
  rw [Text.trimLeft_append] at hdropped
  exact hdropped.symm

theorem Blank.trim_append (h : blanks.Blank) (text : Text) : (blanks ++ text).trim = text.trim := by
  rw [trim, h.trimLeft_append, trim]

theorem trim_trimLeft (text : Text) : text.trimLeft.trim = text.trim := by
  rw [trim, trimLeft_trimLeft, trim]

theorem Blank.trimRight_append (h : blanks.Blank) (text : Text) :
    (text ++ blanks).trimRight = text.trimRight := by
  have hreverse : ∀ c ∈ blanks.reverse, isBlank c = true :=
    fun c hmem => h c (List.mem_reverse.1 hmem)
  rw [trimRight, List.reverse_append, List.dropWhile_append_of_pos hreverse, trimRight]

theorem Blank.trimLeft (h : blanks.Blank) : blanks.trimLeft = [] := by
  have hdropped := h.trimLeft_append []
  rwa [List.append_nil] at hdropped

theorem Blank.trim (h : blanks.Blank) : blanks.trim = [] := by
  rw [Text.trim, h.trimLeft]
  rfl

theorem Blank.append_trim (h : blanks.Blank) (text : Text) : (text ++ blanks).trim = text.trim := by
  rw [Text.trim, Text.trimLeft, List.dropWhile_append]
  split
  · next hblank =>
      have hnil : text.trimLeft = [] := List.isEmpty_iff.1 hblank
      rw [Text.trim, hnil]
      exact congrArg trimRight h.trimLeft
  · exact h.trimRight_append _

end Text

end Bracketed
