import Bracketed.Proofs.LaidOut
import Bracketed.Proofs.Seam
import Bracketed.Proofs.Trim

/-!
# Ink

The characters that are not blank are the ink of a text.  Laying out a forest moves
blanks only, so a formatted text has the ink of the forest, in order and at every
width.  The forest lacks the quoted text of the lost seams, and a quote begins with
ink: formatting keeps the ink of a text just when it keeps the text as it is, or when
no gap that is lost holds a quote.
-/

namespace Bracketed

namespace Text

/-- The characters that are not blank. -/
def inked (text : Text) : Text :=
  text.filter fun c => !isBlank c

theorem inked_append (first second : Text) :
    (first ++ second).inked = first.inked ++ second.inked :=
  List.filter_append first second

theorem inked_cons {c : Char} (h : isBlank c = false) (rest : Text) :
    inked (c :: rest) = c :: rest.inked := by
  simp [inked, h]

theorem inked_trimLeft (text : Text) : text.trimLeft.inked = text.inked := by
  induction text with
  | nil => rfl
  | cons c rest ih =>
      cases hblank : isBlank c with
      | true => simpa [trimLeft, inked, hblank] using ih
      | false => rw [trimLeft_eq_self hblank]

end Text

/-- Quoted text has ink, unless it is empty. -/
theorem Text.Quoted.inked_eq_nil_iff {text : Text} (h : text.Quoted) :
    text.inked = [] ↔ text = [] := by
  constructor
  · intro hinked
    cases text with
    | nil => rfl
    | cons c rest =>
        obtain ⟨mark, hmark⟩ := h.head_mark
        have hblank := mark.isBlank_char
        rw [Mark.char_of_ofChar? hmark] at hblank
        simp [inked, hblank] at hinked
  · rintro rfl
    rfl

theorem Bracket.inked_opening (bracket : Bracket) (rest : Text) :
    Text.inked (bracket.opening :: rest) = bracket.opening :: rest.inked :=
  Text.inked_cons bracket.isBlank_opening rest

theorem Bracket.inked_closing (bracket : Bracket) (rest : Text) :
    Text.inked (bracket.closing :: rest) = bracket.closing :: rest.inked :=
  Text.inked_cons bracket.isBlank_closing rest

theorem Segment.inked_line (indentation : Nat) : (line indentation).written.inked = [] := by
  have hbreak : Text.isBlank '\n' = true := by decide
  have hspace : Text.isBlank ' ' = true := by decide
  simp [written, Text.inked, hbreak, hspace]

/-! ## Layouts -/

namespace Layout

theorem inked_leadAt (level : Int) (lead : Text) : (leadAt level lead).inked = lead.inked := by
  unfold leadAt
  split
  · rfl
  · exact lead.inked_trimLeft

mutual

/-- A layout has the ink of its node. -/
theorem inked_segments (level : Int) (layout : Layout) :
    Text.inked ((layout.segments level).flatMap Segment.written) = layout.node.inline.inked := by
  cases layout with
  | flat node =>
      simp [segments, Layout.node, Segment.written, Node.inline, Text.inked_append,
        inked_leadAt]
  | split lead bracket children comma =>
      have hchildren := inked_segmentsList (level + 1) children
      simp only [segments, Layout.node, Node.inline_group, List.flatMap_cons,
        List.flatMap_append, List.flatMap_nil, List.append_nil, Text.inked_append,
        Segment.inked_line, List.nil_append, hchildren]
      simp only [Segment.written, inked_leadAt, Bracket.inked_opening, Bracket.inked_closing,
        Text.inked_append]
      rfl

theorem inked_segmentsList (level : Int) (layouts : List Layout) :
    Text.inked ((segmentsList level layouts).flatMap Segment.written) =
      (Node.inlineList (nodes layouts)).inked := by
  cases layouts with
  | nil => rfl
  | cons layout rest =>
      have hfirst := inked_segments level layout
      have hrest := inked_segmentsList level rest
      simp only [segmentsList, nodes, Node.inlineList, List.flatMap_cons, List.flatMap_append,
        Text.inked_append, Segment.inked_line, List.nil_append, hrest, hfirst, Node.inline]

end

end Layout

theorem Forest.inked_segments (width level : Int) (column : Nat) (forest : Forest) :
    Text.inked ((forest.segments width level column).flatMap Segment.written) =
      forest.inline.inked := by
  induction forest generalizing column with
  | nil => rfl
  | cons node rest ih =>
      have hfirst := (node.layout width level column).inked_segments level
      rw [Node.node_layout] at hfirst
      rw [segments, List.flatMap_append, Text.inked_append, ih, hfirst, ← Text.inked_append]
      rfl

theorem Forest.inked_render (width : Int) (forest : Forest) :
    (forest.render width).inked = forest.inline.inked :=
  forest.inked_segments width 0 0

/-! ## Texts -/

theorem Trail.Regular.quoted_of_mem_seams {trail : Trail} (h : trail.Regular .outside)
    {opened : List Bracket} {before : Neighbour} {seam : Seam}
    (hmem : seam ∈ trail.seams opened before) : seam.gap.Quoted := by
  induction trail generalizing opened before with
  | stop gap =>
      rw [List.mem_singleton.1 hmem]
      exact h.quoted_stop
  | step gap char next ih =>
      rcases List.mem_cons.1 hmem with rfl | hmem
      · exact h.quoted
      · exact ih h.next hmem

/-- The ink of the kept text is the ink of the text just when no quote is lost. -/
theorem Text.inked_kept_eq_iff (text : Text) :
    text.kept.inked = text.inked ↔ ∀ seam ∈ text.seams, seam.Lost → seam.gap = [] := by
  have hfilter := Seam.filter_flatMap_kept_eq_iff (fun c => !isBlank c) text.seams
  rw [text.flatMap_written_seams] at hfilter
  refine hfilter.trans ?_
  constructor
  · intro hlost seam hmem hseam
    have hquoted := (Trail.regular_ofText text).quoted_of_mem_seams hmem
    exact hquoted.inked_eq_nil_iff.1 (hlost seam hmem hseam)
  · intro hlost seam hmem hseam
    rw [hlost seam hmem hseam]
    rfl

/-- Formatting keeps the ink of a text but for the quotes in its lost seams.  It keeps
all of it just when the text has no forest or no such quote. -/
theorem inked_format (limit : Nat) (text : Text) (width : Int) :
    (format limit text width).text.inked =
      (if (examine limit text).forest = [] then text else text.kept).inked ∧
    ((format limit text width).text.inked = text.inked ↔
      (examine limit text).forest = [] ∨ ∀ seam ∈ text.seams, seam.Lost → seam.gap = []) := by
  rcases examine_cases limit text with hnil | ⟨reading, hread, hne, hforest⟩
  · rw [format_of_forest_nil hnil, if_pos hnil]
    exact ⟨rfl, fun _ => .inl hnil, fun _ => rfl⟩
  · have hforest_ne : (examine limit text).forest ≠ [] := by rwa [hforest]
    have hinline := Forest.inline_of_run ((Forest.run_eq_ok_iff hread).2 ⟨rfl, hne⟩)
    have hinked : (format limit text width).text.inked = text.kept.inked := by
      rw [format_of_forest_ne_nil hforest_ne, Forest.inked_render, hforest, hinline]
    rw [if_neg hforest_ne, hinked, text.inked_kept_eq_iff]
    refine ⟨rfl, .inr, ?_⟩
    rintro (hnil | hlost)
    · exact absurd hnil hforest_ne
    · exact hlost

/-- A quote that ends the text behind a comma is lost with its ink. -/
theorem inked_format_ne :
    (format 500 ['a', ',', '\x22', 'b', '\x22'] 80).text.inked ≠
      Text.inked ['a', ',', '\x22', 'b', '\x22'] := by
  decide +kernel

end Bracketed
