import Bracketed.Proofs.Agreement

/-!
# Seams

A seam is a gap with what stands directly before and after it.  A forest written on
one line is its text without the quoted text of the lost seams: between a closing
bracket and a comma, and between either of them and the end.  Nothing else is lost.
-/

namespace Bracketed

/-- What stands directly before a gap. -/
inductive Neighbour
  /-- A bracket that closes the innermost open one. -/
  | closing
  | comma
  | other
deriving DecidableEq, Repr

def Neighbour.of (opened : List Bracket) (c : Char) : Neighbour :=
  match Role.of opened c with
  | .closing => closing
  | .comma => comma
  | .opening _ => other
  | .plain => other

/-- A gap, what stands before it, and the unquoted character after it, if any. -/
structure Seam where
  before : Neighbour
  gap : Text
  after : Option Char
deriving DecidableEq, Repr

namespace Seam

/-- The seam stands between a closing bracket and a comma, or between either of them
and the end. -/
def Lost (seam : Seam) : Prop :=
  (seam.before = .closing ∧ seam.after = some separator) ∨
    (seam.after = none ∧ (seam.before = .comma ∨ seam.before = .closing))

instance (seam : Seam) : Decidable seam.Lost :=
  inferInstanceAs (Decidable (_ ∨ _))

def written (seam : Seam) : Text :=
  seam.gap ++ seam.after.toList

/-- The text of a seam without a gap that is lost. -/
def kept (seam : Seam) : Text :=
  (if seam.Lost then [] else seam.gap) ++ seam.after.toList

theorem kept_of_ne_separator {before : Neighbour} {gap : Text} {c : Char} (h : c ≠ separator) :
    (mk before gap (some c)).kept = gap ++ [c] := by
  simp [kept, Lost, h]

theorem kept_of_before_ne {before : Neighbour} {gap : Text} {c : Char}
    (h : before ≠ .closing) : (mk before gap (some c)).kept = gap ++ [c] := by
  simp [kept, Lost, h]

theorem kept_closing_comma (gap : Text) :
    (mk .closing gap (some separator)).kept = [separator] := by
  simp [kept, Lost]

/-- Leaving out a gap leaves out its characters, also if only some are counted. -/
theorem length_filter_kept (keeps : Char → Bool) (seam : Seam) :
    (seam.written.filter keeps).length =
      (seam.kept.filter keeps).length +
        (if seam.Lost then (seam.gap.filter keeps).length else 0) := by
  unfold kept written
  by_cases hlost : seam.Lost
  · simp only [if_pos hlost, List.nil_append, List.filter_append, List.length_append]
    omega
  · simp only [if_neg hlost, Nat.add_zero]

theorem length_filter_flatMap_kept_le (keeps : Char → Bool) (seams : List Seam) :
    ((seams.flatMap kept).filter keeps).length ≤
      ((seams.flatMap written).filter keeps).length := by
  induction seams with
  | nil => exact Nat.le_refl _
  | cons seam rest ih =>
      have hseam := length_filter_kept keeps seam
      simp only [List.flatMap_cons, List.filter_append, List.length_append]
      omega

/-- Of some characters none is left out just when no gap that is lost has any. -/
theorem filter_flatMap_kept_eq_iff (keeps : Char → Bool) (seams : List Seam) :
    (seams.flatMap kept).filter keeps = (seams.flatMap written).filter keeps ↔
      ∀ seam ∈ seams, seam.Lost → seam.gap.filter keeps = [] := by
  constructor
  · intro hsame
    have hlength := congrArg List.length hsame
    clear hsame
    induction seams with
    | nil =>
        intro seam hmem
        cases hmem
    | cons first rest ih =>
        simp only [List.flatMap_cons, List.filter_append, List.length_append] at hlength
        have hfirst := length_filter_kept keeps first
        have hrest := length_filter_flatMap_kept_le keeps rest
        intro seam hmem hlost
        rcases List.mem_cons.1 hmem with rfl | hmem
        · rw [if_pos hlost] at hfirst
          exact List.length_eq_zero_iff.1 (by omega)
        · exact ih (by omega) seam hmem hlost
  · intro hempty
    induction seams with
    | nil => rfl
    | cons first rest ih =>
        have hfirst : first.kept.filter keeps = first.written.filter keeps := by
          unfold kept written
          by_cases hlost : first.Lost
          · simp [if_pos hlost, hempty first List.mem_cons_self hlost]
          · rw [if_neg hlost]
        rw [List.flatMap_cons, List.flatMap_cons, List.filter_append, List.filter_append, hfirst,
          ih fun seam hmem => hempty seam (List.mem_cons_of_mem _ hmem)]

/-- Nothing is left out just when every gap that is lost is empty. -/
theorem flatMap_kept_eq_iff (seams : List Seam) :
    seams.flatMap kept = seams.flatMap written ↔ ∀ seam ∈ seams, seam.Lost → seam.gap = [] := by
  have hall : ∀ text : Text, text.filter (fun _ => true) = text :=
    fun text => List.filter_eq_self.2 fun _ _ => rfl
  simpa only [hall] using filter_flatMap_kept_eq_iff (fun _ => true) seams

end Seam

/-- The seams of a trail, inside some open brackets. -/
def Trail.seams (opened : List Bracket) (before : Neighbour) : Trail → List Seam
  | stop gap => [⟨before, gap, none⟩]
  | step gap c next =>
      ⟨before, gap, some c⟩ :: next.seams (Bracket.scan opened c) (Neighbour.of opened c)

namespace Text

def seams (text : Text) : List Seam :=
  (Trail.ofText text).seams [] .other

/-- The text without the gaps that are lost. -/
def kept (text : Text) : Text :=
  text.seams.flatMap Seam.kept

end Text

theorem Trail.flatMap_written_seams (opened : List Bracket) (before : Neighbour)
    (trail : Trail) : (trail.seams opened before).flatMap Seam.written = trail.text := by
  induction trail generalizing opened before with
  | stop gap => simp [seams, Seam.written, text]
  | step gap c next ih => simp [seams, Seam.written, text, ih]

/-- The seams of a text spell it out. -/
theorem Text.flatMap_written_seams (text : Text) : text.seams.flatMap Seam.written = text := by
  rw [seams, Trail.flatMap_written_seams, Trail.text_ofText]

/-- No character is kept more often than the text has it. -/
theorem Text.count_kept_le (text : Text) (c : Char) : text.kept.count c ≤ text.count c := by
  have hlength := Seam.length_filter_flatMap_kept_le (· == c) text.seams
  rw [text.flatMap_written_seams] at hlength
  rw [List.count_eq_length_filter, List.count_eq_length_filter]
  exact hlength

/-! ## What a pass has written -/

/-- The text of the open groups up to the innermost opening bracket. -/
def Opened.written : List Opened → Text
  | [] => []
  | group :: outer =>
      written outer ++ Node.inlineList group.nodes ++ group.lead ++ [group.bracket.opening]

def Begun.written : Begun → Text
  | text lead => lead
  | group lead bracket children =>
      lead ++ bracket.opening :: (Node.inlineList children ++ [bracket.closing])

@[simp] theorem Begun.written_text (lead : Text) : (Begun.text lead).written = lead :=
  rfl

@[simp] theorem Begun.written_group (lead : Text) (bracket : Bracket) (children : List Node) :
    (Begun.group lead bracket children).written =
      lead ++ bracket.opening :: (Node.inlineList children ++ [bracket.closing]) :=
  rfl

namespace Pass

/-- All that a pass has kept so far, on one line. -/
def written (pass : Pass) : Text :=
  Opened.written pass.opened ++ Node.inlineList pass.nodes ++ pass.begun.written

/-- What stands directly before the next gap. -/
def before (pass : Pass) : Neighbour :=
  match pass.begun with
  | .group _ _ _ => .closing
  | .text [] => if pass.nodes = [] then .other else .comma
  | .text (_ :: _) => .other

variable {pass after : Pass} {gap : Text} {c : Char}

theorem inlineList_leafOf (text : Text) : Node.inlineList (leafOf text) = text := by
  unfold leafOf
  split
  · next h => rw [h]; rfl
  · simp [Node.inlineList, Node.lead, Node.body, Node.suffixText]

theorem inlineList_settled (pass : Pass) (gap : Text) :
    Node.inlineList pass.settled ++ pass.pending gap =
      Node.inlineList pass.nodes ++ pass.begun.written ++ gap := by
  unfold settled pending
  cases pass.begun with
  | text lead => simp
  | group lead bracket children =>
      simp [Node.inlineList_append, Node.inlineList, Node.lead, Node.body,
        Node.suffixText]

theorem before_step (h : pass.step gap c = some after) :
    after.before = Neighbour.of pass.brackets c := by
  rcases step_cases h with ⟨bracket, hrole, rfl⟩ | ⟨group, outer, hrole, -, -, rfl⟩ |
    ⟨hrole, hcomma⟩ | ⟨hrole, rfl⟩
  · rw [Neighbour.of, hrole]
    rfl
  · rw [Neighbour.of, hrole]
    rfl
  · rw [Neighbour.of, hrole]
    rcases takeComma_cases hcomma with ⟨lead, -, -, rfl⟩ | ⟨lead, bracket, children, -, rfl⟩
    · simp [before]
    · simp [before]
  · rw [Neighbour.of, hrole]
    unfold takePlain before
    dsimp only
    split
    · next hbegun => cases hbegun
    · next hbegun => simp at hbegun
    · rfl

/-- One step writes its seam, without the gap if that is lost. -/
theorem written_step (h : pass.step gap c = some after) :
    after.written = pass.written ++ (Seam.mk pass.before gap (some c)).kept := by
  have hsettled := inlineList_settled pass gap
  rcases step_cases h with ⟨bracket, hrole, rfl⟩ | ⟨group, outer, hrole, hopened, hclosing, rfl⟩ |
    ⟨hrole, hcomma⟩ | ⟨hrole, rfl⟩
  · have hc := Role.eq_of_opening hrole
    have hne := Role.ne_separator (by rw [hrole]; exact Role.noConfusion)
    rw [Seam.kept_of_ne_separator hne, hc]
    simp only [takeOpening, written, Opened.written, Begun.written_text, Node.inlineList,
      List.append_nil]
    simp only [List.append_assoc] at hsettled ⊢
    rw [← List.append_assoc (Node.inlineList pass.settled), hsettled]
    simp
  · have hne := Role.ne_separator (by rw [hrole]; exact Role.noConfusion)
    rw [Seam.kept_of_ne_separator hne]
    simp only [written, hopened, Opened.written, Begun.written_group, Node.inlineList_append,
      inlineList_leafOf, hsettled, hclosing]
    simp
  · rw [Role.eq_of_comma hrole]
    rcases takeComma_cases hcomma with
      ⟨lead, hbegun, -, rfl⟩ | ⟨lead, bracket, children, hbegun, rfl⟩
    · have hbefore : pass.before ≠ .closing := by
        unfold before
        rw [hbegun]
        cases lead with
        | nil => by_cases hnodes : pass.nodes = [] <;> simp [hnodes]
        | cons c lead => simp
      rw [Seam.kept_of_before_ne hbefore]
      simp [written, hbegun, Node.inlineList_append, Node.inlineList, Node.lead,
        Node.body, Node.suffixText]
    · have hbefore : pass.before = .closing := by
        unfold before
        rw [hbegun]
      rw [hbefore, Seam.kept_closing_comma]
      simp [written, hbegun, Node.inlineList_append, Node.inlineList, Node.lead,
        Node.body, Node.suffixText]
  · have hne := Role.ne_separator (by rw [hrole]; exact Role.noConfusion)
    rw [Seam.kept_of_ne_separator hne]
    simp only [takePlain, written, Begun.written_text]
    simp only [List.append_assoc] at hsettled ⊢
    rw [← List.append_assoc (Node.inlineList pass.settled), hsettled]
    simp

/-- The end writes the last gap, unless that is lost. -/
theorem inlineList_finish {forest : Forest} (h : pass.finish gap = .ok forest) :
    Node.inlineList forest = pass.written ++ (Seam.mk pass.before gap none).kept := by
  obtain ⟨hopened, rfl⟩ := eq_of_finish h
  rw [Node.inlineList_append, inlineList_leafOf]
  unfold settled ending written before
  rw [hopened]
  cases pass.begun with
  | group lead bracket children =>
      simp [Seam.kept, Seam.Lost, Opened.written, Node.inlineList_append,
        Node.inlineList, Node.lead, Node.body, Node.suffixText]
  | text lead =>
      cases lead with
      | nil =>
          by_cases hnodes : pass.nodes = []
          · simp [Seam.kept, Seam.Lost, Opened.written, hnodes]
          · simp [Seam.kept, Seam.Lost, Opened.written, hnodes]
      | cons c lead => simp [Seam.kept, Seam.Lost, Opened.written]

/-- A whole pass writes its seams. -/
theorem inlineList_run {trail : Trail} {forest : Forest} (h : pass.run trail = .ok forest) :
    Node.inlineList forest =
      pass.written ++ (trail.seams pass.brackets pass.before).flatMap Seam.kept := by
  induction trail generalizing pass with
  | stop gap =>
      rw [inlineList_finish h]
      simp [Trail.seams]
  | step gap c next ih =>
      unfold run at h
      split at h
      · cases h
      · next after hstep =>
          rw [ih h, written_step hstep, brackets_step hstep, before_step hstep, Trail.seams,
            List.flatMap_cons, List.append_assoc]

end Pass

theorem Forest.inline_of_run {text : Text} {forest : Forest}
    (h : Pass.initial.run (Trail.ofText text) = .ok forest) : forest.inline = text.kept := by
  have hinline := Pass.inlineList_run h
  exact hinline

/-- A forest on one line is its text without the gaps that are lost, and all of its text
just when those are empty.  Below the nesting limit every text is read. -/
theorem Forest.inline_of_read (limit : Nat) (text : Text) :
    (text.nesting < limit → ∃ reading, Forest.read limit text = .ok reading) ∧
    ∀ reading, Forest.read limit text = .ok reading → reading.forest ≠ [] →
      reading.forest.inline = text.kept ∧
      (reading.forest.inline = text ↔ ∀ seam ∈ text.seams, seam.Lost → seam.gap = []) := by
  refine ⟨Forest.exists_read, ?_⟩
  intro reading hread hne
  have hinline := inline_of_run ((run_eq_ok_iff hread).2 ⟨rfl, hne⟩)
  refine ⟨hinline, ?_⟩
  have hspelled := text.flatMap_written_seams
  rw [hinline, ← Seam.flatMap_kept_eq_iff, hspelled]
  rfl

/-- Of two quotes the one between a closing bracket and a comma is lost. -/
theorem Forest.inline_of_read_lost :
    ∃ reading, Forest.read 2 ['(', '\x22', ')', '\x22', ')', '\x60', '\x60', ',', 'a'] = .ok reading ∧
      reading.forest ≠ [] ∧
      reading.forest.inline = ['(', '\x22', ')', '\x22', ')', ',', 'a'] := by
  have hnesting : Text.nesting ['(', '\x22', ')', '\x22', ')', '\x60', '\x60', ',', 'a'] < 2 := by
    decide +kernel
  have hforest :
      (Forest.read 2 ['(', '\x22', ')', '\x22', ')', '\x60', '\x60', ',', 'a']).map Reading.forest =
        .ok [.group [] .round [.leaf ['\x22', ')', '\x22'] false] true, .leaf ['a'] false] :=
    rfl
  obtain ⟨reading, hread⟩ := (inline_of_read 2 _).1 hnesting
  rw [hread] at hforest
  have hne : reading.forest ≠ [] := by
    rw [Except.ok.inj hforest]
    exact List.cons_ne_nil _ _
  have hinline := ((inline_of_read 2 _).2 reading hread hne).1
  exact ⟨reading, hread, hne, hinline.trans (by decide +kernel)⟩

end Bracketed
