import Bracketed.Reading
import Bracketed.Proofs.Role

/-!
# Passes

A pass reads a trail once from left to right and never looks ahead.  It keeps the
groups that are open, the nodes that are complete on the innermost level, and what
was begun behind them: some text, or a group that is closed and may still be given
a comma.  Every gap goes to what stands before it or to what comes after, but for
two: the gap between a closing bracket and a comma, and the gap between either of
them and the end.
-/

namespace Bracketed

/-- A group that is still open, and the nodes before it on its level. -/
structure Opened where
  nodes : List Node
  lead : Text
  bracket : Bracket

/-- What stands behind the last complete node. -/
inductive Begun
  | text (lead : Text)
  /-- A closed group that a comma may follow. -/
  | group (lead : Text) (bracket : Bracket) (children : List Node)

/-- Why a text is given up. -/
inductive Refusal
  /-- A leaf has no text. -/
  | blank
  /-- The text ends inside a group that began with this lead and bracket. -/
  | unclosed (bracket : Bracket) (lead : Text)
deriving DecidableEq, Repr

/-- What is reported of the reason itself. -/
def Refusal.events : Refusal → List Event
  | blank => []
  | unclosed bracket lead => [.unclosed bracket lead]

/-- Why a text is given up, and how many of its characters then lie ahead. -/
structure Halt where
  refusal : Refusal
  unread : Nat
deriving DecidableEq, Repr

structure Pass where
  opened : List Opened
  nodes : List Node
  begun : Begun

namespace Pass

/-- The pass that stands between two nodes. -/
abbrev between (opened : List Opened) (nodes : List Node) : Pass :=
  ⟨opened, nodes, .text []⟩

def initial : Pass :=
  between [] []

/-- The open brackets, innermost first. -/
def brackets (pass : Pass) : List Bracket :=
  pass.opened.map Opened.bracket

/-- The leaf of some text, if there is text. -/
def leafOf (text : Text) : List Node :=
  if text = [] then [] else [.leaf text false]

/-- The nodes that are complete once no comma follows. -/
def settled (pass : Pass) : List Node :=
  match pass.begun with
  | .text _ => pass.nodes
  | .group lead bracket children => pass.nodes ++ [.group lead bracket children false]

/-- The text behind the settled nodes, up to the character after a gap. -/
def pending (pass : Pass) (gap : Text) : Text :=
  match pass.begun with
  | .text lead => lead ++ gap
  | .group _ _ _ => gap

/-- The text behind the settled nodes at the end of the text. -/
def ending (pass : Pass) (gap : Text) : Text :=
  match pass.begun with
  | .text lead => if lead = [] ∧ pass.nodes ≠ [] then [] else lead ++ gap
  | .group _ _ _ => []

def takeOpening (pass : Pass) (gap : Text) (bracket : Bracket) : Pass :=
  ⟨⟨pass.settled, pass.pending gap, bracket⟩ :: pass.opened, [], .text []⟩

/-- A closing bracket completes the innermost group; there always is one. -/
def takeClosing (pass : Pass) (gap : Text) : Pass :=
  match pass.opened with
  | [] => ⟨[], pass.settled, .text (pass.pending gap)⟩
  | group :: outer =>
      ⟨outer, group.nodes,
        .group group.lead group.bracket (pass.settled ++ leafOf (pass.pending gap))⟩

/-- A comma needs a closed group or some text before it. -/
def takeComma (pass : Pass) (gap : Text) : Option Pass :=
  match pass.begun with
  | .text lead =>
      if lead ++ gap = [] then none
      else some ⟨pass.opened, pass.nodes ++ [.leaf (lead ++ gap) true], .text []⟩
  | .group lead bracket children =>
      some ⟨pass.opened, pass.nodes ++ [.group lead bracket children true], .text []⟩

def takePlain (pass : Pass) (gap : Text) (c : Char) : Pass :=
  ⟨pass.opened, pass.settled, .text (pass.pending gap ++ [c])⟩

/-- The pass behind a gap and the unquoted character after it. -/
def step (pass : Pass) (gap : Text) (c : Char) : Option Pass :=
  match Role.of pass.brackets c with
  | .opening bracket => some (pass.takeOpening gap bracket)
  | .closing => some (pass.takeClosing gap)
  | .comma => pass.takeComma gap
  | .plain => some (pass.takePlain gap c)

/-- The forest of a pass that meets the end behind a gap. -/
def finish (pass : Pass) (gap : Text) : Except Halt Forest :=
  match pass.opened with
  | group :: _ => .error ⟨.unclosed group.bracket group.lead, 0⟩
  | [] =>
      match pass.settled ++ leafOf (pass.ending gap) with
      | [] => .error ⟨.blank, 0⟩
      | forest => .ok forest

/-- The forest that a pass comes to over a trail. -/
def run (pass : Pass) : Trail → Except Halt Forest
  | .stop gap => pass.finish gap
  | .step gap c next =>
      match pass.step gap c with
      | none => .error ⟨.blank, next.text.length + 1⟩
      | some after => after.run next

theorem finish_ne_nil {pass : Pass} {gap : Text} {forest : Forest}
    (h : pass.finish gap = .ok forest) : forest ≠ [] := by
  unfold finish at h
  split at h
  · cases h
  · split at h
    · cases h
    · next hne =>
        cases h
        exact hne

theorem eq_of_finish {pass : Pass} {gap : Text} {forest : Forest}
    (h : pass.finish gap = .ok forest) :
    pass.opened = [] ∧ forest = pass.settled ++ leafOf (pass.ending gap) := by
  unfold finish at h
  split at h
  · cases h
  · next hopened =>
      refine ⟨hopened, ?_⟩
      split at h
      · cases h
      · exact (Except.ok.inj h).symm

/-- No pass comes to an empty forest. -/
theorem run_ne_nil {pass : Pass} {trail : Trail} {forest : Forest}
    (h : pass.run trail = .ok forest) : forest ≠ [] := by
  induction trail generalizing pass with
  | stop gap => exact finish_ne_nil h
  | step gap c next ih =>
      unfold run at h
      split at h
      · cases h
      · exact ih h

/-! ## One step -/

variable {pass after : Pass} {gap : Text} {c : Char}

/-- Everything that a step can do. -/
theorem step_cases (h : pass.step gap c = some after) :
    (∃ bracket, Role.of pass.brackets c = .opening bracket ∧
      after = pass.takeOpening gap bracket) ∨
    (∃ group outer, Role.of pass.brackets c = .closing ∧ pass.opened = group :: outer ∧
      c = group.bracket.closing ∧
      after = ⟨outer, group.nodes,
        .group group.lead group.bracket (pass.settled ++ leafOf (pass.pending gap))⟩) ∨
    (Role.of pass.brackets c = .comma ∧ pass.takeComma gap = some after) ∨
    (Role.of pass.brackets c = .plain ∧ after = pass.takePlain gap c) := by
  unfold step at h
  cases hrole : Role.of pass.brackets c with
  | opening bracket =>
      rw [hrole] at h
      exact .inl ⟨bracket, rfl, (Option.some.inj h).symm⟩
  | closing =>
      rw [hrole] at h
      refine .inr (.inl ?_)
      obtain ⟨bracket, outer, hbrackets, hclosing⟩ := Role.eq_of_closing hrole
      cases hopened : pass.opened with
      | nil => simp [brackets, hopened] at hbrackets
      | cons group outer' =>
          simp only [brackets, hopened, List.map_cons, List.cons.injEq] at hbrackets
          refine ⟨group, outer', rfl, rfl, ?_, ?_⟩
          · rw [hclosing, hbrackets.1]
          · simpa [takeClosing, hopened] using (Option.some.inj h).symm
  | comma =>
      rw [hrole] at h
      exact .inr (.inr (.inl ⟨rfl, h⟩))
  | plain =>
      rw [hrole] at h
      exact .inr (.inr (.inr ⟨rfl, (Option.some.inj h).symm⟩))

/-- A comma completes the leaf or the group that was begun. -/
theorem takeComma_cases (h : pass.takeComma gap = some after) :
    (∃ lead, pass.begun = .text lead ∧ lead ++ gap ≠ [] ∧
      after = between pass.opened (pass.nodes ++ [.leaf (lead ++ gap) true])) ∨
    ∃ lead bracket children, pass.begun = .group lead bracket children ∧
      after = between pass.opened (pass.nodes ++ [.group lead bracket children true]) := by
  unfold takeComma at h
  cases hbegun : pass.begun with
  | text lead =>
      rw [hbegun] at h
      dsimp only at h
      split at h
      · cases h
      · next hne => exact .inl ⟨lead, rfl, hne, (Option.some.inj h).symm⟩
  | group lead bracket children =>
      rw [hbegun] at h
      exact .inr ⟨lead, bracket, children, rfl, (Option.some.inj h).symm⟩

/-- The open brackets of a pass are those of the scan. -/
theorem brackets_step (h : pass.step gap c = some after) :
    after.brackets = Bracket.scan pass.brackets c := by
  rcases step_cases h with ⟨bracket, hrole, rfl⟩ | ⟨group, outer, hrole, hopened, -, rfl⟩ |
    ⟨hrole, hcomma⟩ | ⟨hrole, rfl⟩
  · rw [Bracket.scan, hrole]
    rfl
  · rw [Bracket.scan, hrole]
    simp [brackets, hopened]
  · rw [Bracket.scan, hrole]
    rcases takeComma_cases hcomma with ⟨lead, -, -, rfl⟩ | ⟨lead, bracket, children, -, rfl⟩
    · rfl
    · rfl
  · rw [Bracket.scan, hrole]
    rfl

/-- A pass is given up only at a comma that has nothing before it. -/
theorem step_eq_none_iff :
    pass.step gap c = none ↔ c = separator ∧ pass.begun = .text [] ∧ gap = [] := by
  have hcomma : pass.takeComma gap = none ↔ pass.begun = .text [] ∧ gap = [] := by
    unfold takeComma
    cases pass.begun <;> simp
  unfold step
  cases hrole : Role.of pass.brackets c with
  | comma => simpa [Role.eq_of_comma hrole] using hcomma
  | opening bracket =>
      have hc := Role.ne_separator (by rw [hrole]; exact Role.noConfusion)
      simp [hc]
  | closing =>
      have hc := Role.ne_separator (by rw [hrole]; exact Role.noConfusion)
      simp [hc]
  | plain =>
      have hc := Role.ne_separator (by rw [hrole]; exact Role.noConfusion)
      simp [hc]

/-! ## Text that was begun -/

section Text

variable {opened : List Opened} {nodes : List Node} {lead : Text} {next : Trail}

/-- Text that was begun counts like a gap. -/
theorem step_text :
    (⟨opened, nodes, .text lead⟩ : Pass).step gap c =
      (between opened nodes).step (lead ++ gap) c := by
  unfold step brackets
  dsimp only
  cases Role.of (opened.map Opened.bracket) c <;>
    simp [takeOpening, takeClosing, takeComma, takePlain, settled, pending]

theorem run_text :
    (⟨opened, nodes, .text lead⟩ : Pass).run (.step gap c next) =
      (between opened nodes).run (.step (lead ++ gap) c next) := by
  rw [run, run, step_text]

theorem run_plain (h : Role.of (opened.map Opened.bracket) c = .plain) :
    (⟨opened, nodes, .text lead⟩ : Pass).run (.step gap c next) =
      (⟨opened, nodes, .text (lead ++ gap ++ [c])⟩ : Pass).run next := by
  simp [run, step, brackets, h, takePlain, settled, pending]

theorem run_opening (bracket : Bracket) :
    (between opened nodes).run (.step gap bracket.opening next) =
      (between (⟨nodes, gap, bracket⟩ :: opened) []).run next := by
  simp [run, step, Role.of_opening, takeOpening, settled, pending]

theorem run_closing (group : Opened) :
    (between (group :: opened) nodes).run (.step gap group.bracket.closing next) =
      (⟨opened, group.nodes,
        .group group.lead group.bracket (nodes ++ leafOf gap)⟩ : Pass).run next := by
  simp [run, step, brackets, Role.of_closing, takeClosing, settled, pending]

theorem run_comma (h : gap ≠ []) :
    (between opened nodes).run (.step gap separator next) =
      (between opened (nodes ++ [.leaf gap true])).run next := by
  simp only [run, step, Role.of_separator, takeComma, List.nil_append, if_neg h]

/-- The end behind text that was begun. -/
theorem run_stop (h : lead ++ gap ≠ []) (hlost : lead = [] → nodes = []) :
    (⟨opened, nodes, .text lead⟩ : Pass).run (.stop gap) =
      (between opened (nodes ++ [.leaf (lead ++ gap) false])).run (.stop []) := by
  cases opened with
  | cons group outer => rfl
  | nil =>
      have hkept : ¬ (lead = [] ∧ nodes ≠ []) := fun hboth => hboth.2 (hlost hboth.1)
      simp only [run, finish, settled, ending, if_neg hkept, leafOf, if_neg h]
      simp

/-- The end behind a node. -/
theorem run_between_stop (h : nodes ≠ []) (gap : Text) :
    (between [] nodes).run (.stop gap) = .ok nodes := by
  cases nodes with
  | nil => exact absurd rfl h
  | cons node rest => simp [run, finish, settled, ending, leafOf]

end Text

/-! ## Plain text is passed over -/

section Search

variable {opened : List Opened} {nodes : List Node} {next : Trail}

/-- The characters that a pass does not take as plain text. -/
abbrev boundary (opened : List Opened) : Text :=
  Bracket.boundary (opened.map Opened.bracket)

theorem run_passed (opened : List Opened) (nodes : List Node) (lead : Text) (trail : Trail) :
    (⟨opened, nodes, .text lead⟩ : Pass).run trail =
      (⟨opened, nodes, .text (lead ++ trail.passed (boundary opened))⟩ : Pass).run
        (trail.found (boundary opened)) := by
  induction trail generalizing lead with
  | stop gap => simp [Trail.passed, Trail.found]
  | step gap c next ih =>
      by_cases hchar : c ∈ boundary opened
      · rw [Trail.found_step_of_mem hchar, Trail.passed_step_of_mem hchar, List.append_nil]
      · rw [Trail.found_step_of_not_mem hchar, Trail.passed_step_of_not_mem hchar,
          run_plain (Role.of_eq_plain_iff.2 hchar), ih]
        simp

/-- All that comes before a character that is not plain counts like a gap. -/
theorem run_found {trail : Trail} (h : trail.found (boundary opened) = .step gap c next) :
    (between opened nodes).run trail =
      (between opened nodes).run (.step (trail.upTo (boundary opened)) c next) := by
  rw [run_passed, h, run_text, Trail.upTo, h]
  rfl

end Search

/-! ## Closed groups -/

section Group

variable {opened : List Opened} {nodes children : List Node} {lead : Text} {bracket : Bracket}
  {next : Trail}

/-- The comma after a group, and the gap before it, which is lost. -/
theorem run_group_comma :
    (⟨opened, nodes, .group lead bracket children⟩ : Pass).run (.step gap separator next) =
      (between opened (nodes ++ [.group lead bracket children true])).run next := by
  simp only [run, step, Role.of_separator, takeComma]

/-- A closed group is complete when no comma comes next. -/
theorem run_group {trail : Trail} (h : trail.chars.head? ≠ some separator) :
    (⟨opened, nodes, .group lead bracket children⟩ : Pass).run trail =
      (between opened (nodes ++ [.group lead bracket children false])).run trail := by
  cases trail with
  | stop gap => cases opened <;> simp [run, finish, settled, ending]
  | step gap c next =>
      have hcomma : Role.of (opened.map Opened.bracket) c ≠ .comma := by
        intro hrole
        exact h (congrArg some (Role.eq_of_comma hrole))
      have hstep : (⟨opened, nodes, .group lead bracket children⟩ : Pass).step gap c =
          (between opened (nodes ++ [.group lead bracket children false])).step gap c := by
        cases hrole : Role.of (opened.map Opened.bracket) c with
        | comma => exact absurd hrole hcomma
        | opening _ => simp [step, brackets, hrole, takeOpening, settled, pending]
        | closing => simp [step, brackets, hrole, takeClosing, settled, pending]
        | plain => simp [step, brackets, hrole, takePlain, settled, pending]
      rw [run, run, hstep]

end Group

end Pass

end Bracketed
