import Bracketed.Proofs.Pass
import Bracketed.Proofs.Reading

/-!
# Readings are passes

The reader looks ahead for brackets and for the end of a node, and calls itself for
every child.  A pass does neither, and comes to the same forest or gives up for the
same reason at the same place.  Only groups that nest too deep stop the reader, and
then the text does nest that deep.
-/

namespace Bracketed

namespace Pass

/-- A pass over a trail comes to what another comes to over the rest of it, which
nests no deeper. -/
structure Leads (before : Pass) (trail : Trail) (after : Pass) (rest : Trail) : Prop where
  run_eq : before.run trail = after.run rest
  peak_le : Bracket.peak after.brackets rest.chars ≤ Bracket.peak before.brackets trail.chars

theorem Leads.trans {first second third : Pass} {trail trail' trail'' : Trail}
    (h : first.Leads trail second trail') (h' : second.Leads trail' third trail'') :
    first.Leads trail third trail'' where
  run_eq := h.run_eq.trans h'.run_eq
  peak_le := Nat.le_trans h'.peak_le h.peak_le

/-- A node is read here: not at the end, but for an empty text, and not where the
innermost group is closed. -/
def Enters (opened : List Opened) (nodes : List Node) : Trail → Prop
  | .stop _ => opened = [] ∧ nodes = []
  | .step _ c _ => Role.of (opened.map Opened.bracket) c ≠ .closing

/-- No group is open that could be closed. -/
theorem enters_step (nodes : List Node) (gap : Text) (c : Char) (next : Trail) :
    Enters [] nodes (.step gap c next) := by
  intro hrole
  obtain ⟨bracket, outer, hopened, -⟩ := Role.eq_of_closing hrole
  cases hopened

theorem enters_initial (trail : Trail) : Enters [] [] trail := by
  cases trail with
  | stop gap => exact ⟨rfl, rfl⟩
  | step gap c next => exact enters_step [] gap c next

section Leaf

variable {opened : List Opened} {nodes : List Node} {trail next : Trail} {gap : Text} {c : Char}

theorem Enters.eq_nil_of_found_stop (henters : Enters opened nodes trail)
    (hfound : trail.found (boundary opened) = .stop gap)
    (hpassed : trail.passed (boundary opened) = []) : opened = [] ∧ nodes = [] := by
  rw [Trail.found_of_passed_nil hpassed] at hfound
  rw [hfound] at henters
  exact henters

/-- A leaf up to the end of the text. -/
theorem leads_last_leaf (henters : Enters opened nodes trail)
    (hfound : trail.found (boundary opened) = .stop gap)
    (hlead : trail.upTo (boundary opened) ≠ []) :
    (between opened nodes).Leads trail
      (between opened (nodes ++ [.leaf (trail.upTo (boundary opened)) false])) (.stop []) where
  run_eq := by
    rw [Trail.upTo, hfound] at hlead ⊢
    rw [run_passed, hfound]
    exact run_stop hlead fun hpassed => (henters.eq_nil_of_found_stop hfound hpassed).2
  peak_le := Bracket.length_le_peak _ _

/-- A leaf and the comma behind it. -/
theorem leads_comma (hfound : trail.found (boundary opened) = .step gap separator next)
    (hlead : trail.upTo (boundary opened) ≠ []) :
    (between opened nodes).Leads trail
      (between opened (nodes ++ [.leaf (trail.upTo (boundary opened)) true])) next where
  run_eq := by rw [run_found hfound, run_comma hlead]
  peak_le := by
    have hpeak := Bracket.peak_found (opened.map Opened.bracket) trail
    rw [hfound] at hpeak
    rw [brackets, brackets, ← hpeak]
    exact Bracket.peak_scan_le _ separator _

/-- A leaf up to the closing bracket of its group. -/
theorem leads_closing {group : Opened}
    (hfound : trail.found (boundary (group :: opened)) = .step gap group.bracket.closing next)
    (hlead : trail.upTo (boundary (group :: opened)) ≠ []) :
    (between (group :: opened) nodes).Leads trail
      (between (group :: opened)
        (nodes ++ [.leaf (trail.upTo (boundary (group :: opened))) false]))
      (.step [] group.bracket.closing next) where
  run_eq := by
    rw [run_found hfound, run_closing, run_closing]
    simp [leafOf, hlead]
  peak_le := by
    have hpeak := Bracket.peak_found ((group :: opened).map Opened.bracket) trail
    rw [hfound] at hpeak
    exact Nat.le_of_eq hpeak

/-- A comma that has nothing before it. -/
theorem run_blank (henters : Enters opened nodes trail)
    (hfound : trail.found (boundary opened) = .step gap c next) (hc : c ∉ Bracket.openings)
    (hlead : trail.upTo (boundary opened) = []) :
    (between opened nodes).run trail = .error ⟨.blank, next.text.length + 1⟩ := by
  have hmem := Trail.mem_of_found_eq_step hfound
  rw [Trail.upTo, hfound, List.append_eq_nil_iff] at hlead
  obtain ⟨hpassed, rfl⟩ := hlead
  rw [Trail.found_of_passed_nil hpassed] at hfound
  rw [hfound] at henters ⊢
  have hcomma : c = separator := by
    cases hrole : Role.of (opened.map Opened.bracket) c with
    | comma => exact Role.eq_of_comma hrole
    | closing => exact absurd hrole henters
    | opening bracket =>
        rw [Role.eq_of_opening hrole] at hc
        exact absurd (Bracket.mem_openings_iff.2 ⟨bracket, rfl⟩) hc
    | plain => exact absurd hmem (Role.of_eq_plain_iff.1 hrole)
  have hnone : (between opened nodes).step [] c = none :=
    step_eq_none_iff.2 ⟨hcomma, rfl, rfl⟩
  rw [run, hnone]

end Leaf

section Group

variable {opened : List Opened} {nodes children : List Node} {lead : Text} {bracket : Bracket}
  {trail next : Trail} {gap : Text}

/-- The lead and the opening bracket of a group. -/
theorem leads_opening (nodes : List Node)
    (hfound : trail.found (boundary opened) = .step gap bracket.opening next) :
    (between opened nodes).Leads trail
      (between (⟨nodes, trail.upTo (boundary opened), bracket⟩ :: opened) []) next where
  run_eq := by rw [run_found hfound, run_opening]
  peak_le := by
    have hpeak := Bracket.peak_found (opened.map Opened.bracket) trail
    rw [hfound] at hpeak
    rw [brackets, brackets, ← hpeak]
    have hscan := Bracket.peak_scan_le (opened.map Opened.bracket) bracket.opening next.chars
    rwa [Bracket.scan_opening] at hscan

/-- The closing bracket of a group, and the quoted leaf before it. -/
theorem leads_group_closing {group : Opened} :
    (between (group :: opened) nodes).Leads (.step gap group.bracket.closing next)
      ⟨opened, group.nodes, .group group.lead group.bracket (nodes ++ leafOf gap)⟩ next where
  run_eq := run_closing group
  peak_le := by
    have hpeak := Bracket.peak_scan_le
      ((group :: opened).map Opened.bracket) group.bracket.closing next.chars
    rwa [List.map_cons, Bracket.scan_closing] at hpeak

theorem leads_group_comma :
    (⟨opened, nodes, .group lead bracket children⟩ : Pass).Leads (.step gap separator next)
      (between opened (nodes ++ [.group lead bracket children true])) next where
  run_eq := run_group_comma
  peak_le := Bracket.peak_scan_le _ separator _

theorem leads_group (h : trail.chars.head? ≠ some separator) :
    (⟨opened, nodes, .group lead bracket children⟩ : Pass).Leads trail
      (between opened (nodes ++ [.group lead bracket children false])) trail where
  run_eq := run_group h
  peak_le := Nat.le_refl _

end Group

end Pass

/-! ## What the reader does -/

open Pass (between Enters boundary)

/-- A reading from a head on does what a pass does that stands there, and reports why it
comes to nothing, if it does.  `after` is the pass behind the value that is read.  More than
`limit` groups are never open unless the text nests so deep, and at most `rest` unquoted
characters are left. -/
inductive Reads {α : Type} (before : Pass) (head : Head) (after : α → Pass) (limit rest : Nat) :
    Except Fault (Reading α) → Prop
  | tooDeep (deep : limit ≤ Bracket.peak before.brackets head.ahead.chars) :
      Reads before head after limit rest (.error .tooDeep)
  | refused {refusal : Refusal} {next : Head} (precedes : head.Precedes next)
      (run_eq : before.run head.ahead = .error ⟨refusal, next.unread⟩) :
      Reads before head after limit rest (.ok ⟨none, next, refusal.events⟩)
  | read {value : α} {next : Head} (precedes : head.Precedes next)
      (leads : before.Leads head.ahead (after value) next.ahead)
      (length_le : next.ahead.length ≤ rest) :
      Reads before head after limit rest (.ok (.ofValue value next))

namespace Reads

variable {α β : Type} {before middle : Pass} {head place : Head} {limit rest rest' : Nat}

theorem mono {after : α → Pass} {result : Except Fault (Reading α)}
    (h : Reads before head after limit rest result) (hrest : rest ≤ rest') :
    Reads before head after limit rest' result := by
  cases h with
  | tooDeep deep => exact .tooDeep deep
  | refused precedes run_eq => exact .refused precedes run_eq
  | read precedes leads length_le =>
      exact .read precedes leads (Nat.le_trans length_le hrest)

/-- What is read from a place that a pass leads to is read from where it began. -/
theorem of_leads {after : α → Pass} {result : Except Fault (Reading α)}
    (h : Reads middle place after limit rest result) (precedes : head.Precedes place)
    (leads : before.Leads head.ahead middle place.ahead) :
    Reads before head after limit rest result := by
  cases h with
  | tooDeep deep => exact .tooDeep (Nat.le_trans deep leads.peak_le)
  | refused precedes' run_eq =>
      exact .refused (precedes.trans precedes') (leads.run_eq.trans run_eq)
  | read precedes' leads' length_le =>
      exact .read (precedes.trans precedes') (leads.trans leads') length_le

/-- One reading behind another. -/
theorem andThen {first : α → Pass} {after : β → Pass} {result : Except Fault (Reading α)}
    {next : α → Head → Except Fault (Reading β)}
    (h : Reads before head first limit rest result)
    (hread : ∀ value place, place.ahead.length ≤ rest →
      Reads (first value) place after limit rest' (next value place)) :
    Reads before head after limit rest' (result >>= fun reading => reading.andThen next) := by
  cases h with
  | tooDeep deep => exact .tooDeep deep
  | refused precedes run_eq => exact .refused precedes run_eq
  | @read value place precedes leads length_le =>
      rw [Reading.ok_ofValue_bind]
      exact (hread value place length_le).of_leads precedes leads

/-- A value made out of the one that is read. -/
theorem map {first : α → Pass} {after : β → Pass} {result : Except Fault (Reading α)}
    (h : Reads before head first limit rest result) (f : α → β)
    (hafter : ∀ value, after (f value) = first value) :
    Reads before head after limit rest (result >>= fun reading => return reading.map f) := by
  cases h with
  | tooDeep deep => exact .tooDeep deep
  | refused precedes run_eq => exact .refused precedes run_eq
  | read precedes leads length_le =>
      refine .read precedes ?_ length_le
      rw [hafter]
      exact leads

end Reads

namespace Head

variable {opened : List Opened} {nodes : List Node} {head place : Head} {limit : Nat}

/-- A leaf that ends at the end of the text. -/
theorem reads_last_leaf {gap : Text} (henters : Enters opened nodes head.ahead)
    (hfound : head.ahead.found (boundary opened) = .stop gap)
    (hprecedes : head.Precedes place) (hplace : place.ahead = .stop []) :
    Reads (between opened nodes) head (fun node => between opened (nodes ++ [node])) limit
      (head.ahead.length - 1) (place.readLeaf (head.ahead.upTo (boundary opened))) := by
  by_cases hlead : head.ahead.upTo (boundary opened) = []
  · rw [hlead, readLeaf_nil]
    rw [Trail.upTo, hfound, List.append_eq_nil_iff] at hlead
    obtain ⟨hpassed, hgap⟩ := hlead
    obtain ⟨rfl, rfl⟩ := henters.eq_nil_of_found_stop hfound hpassed
    rw [Trail.found_of_passed_nil hpassed] at hfound
    have hrun : (between [] []).run head.ahead = .error ⟨.blank, place.unread⟩ := by
      rw [hfound, unread, hplace]
      cases hgap
      rfl
    exact .refused hprecedes hrun
  · have hcomma : place.ahead.chars.head? ≠ some separator := by
      rw [hplace]
      intro h
      cases h
    rw [readLeaf_of_ne_nil _ hlead, readComma_of_ne _ hcomma]
    refine .read hprecedes ?_ ?_
    · rw [hplace]
      exact Pass.leads_last_leaf henters hfound hlead
    · rw [hplace]
      exact Nat.zero_le _

/-- A leaf that ends before the end of the text. -/
theorem reads_leaf {gap : Text} {c : Char} {next : Trail}
    (henters : Enters opened nodes head.ahead)
    (hfound : head.ahead.found (boundary opened) = .step gap c next)
    (hc : c ∉ Bracket.openings)
    (hprecedes : head.Precedes place) (hplace : place.ahead = .step [] c next) :
    Reads (between opened nodes) head (fun node => between opened (nodes ++ [node])) limit
      (head.ahead.length - 1) (place.readLeaf (head.ahead.upTo (boundary opened))) := by
  by_cases hlead : head.ahead.upTo (boundary opened) = []
  · have hrun : (between opened nodes).run head.ahead = .error ⟨.blank, place.unread⟩ := by
      rw [Pass.run_blank henters hfound hc hlead, unread, hplace]
      simp [Trail.dropGap, Trail.text]
    rw [hlead, readLeaf_nil]
    exact .refused hprecedes hrun
  · rw [readLeaf_of_ne_nil _ hlead]
    by_cases hcomma : c = separator
    · subst hcomma
      obtain ⟨after, hread, hafter, hprecedes'⟩ :=
        readComma_of_comma (.leaf (head.ahead.upTo (boundary opened)) false) hplace
      rw [hread]
      refine .read (hprecedes.trans hprecedes') ?_ ?_
      · rw [hafter]
        exact Pass.leads_comma hfound hlead
      · have hlength := Trail.length_found_le (boundary opened) head.ahead
        rw [hfound] at hlength
        rw [hafter]
        exact Nat.le_sub_one_of_lt hlength
    · have hne : place.ahead.chars.head? ≠ some separator := by
        rw [hplace]
        exact fun h => hcomma (Option.some.inj h)
      rw [readComma_of_ne _ hne]
      -- what ends a leaf and is no comma closes the innermost group
      cases hrole : Role.of (opened.map Opened.bracket) c with
      | plain =>
          exact absurd (Trail.mem_of_found_eq_step hfound) (Role.of_eq_plain_iff.1 hrole)
      | comma => exact absurd (Role.eq_of_comma hrole) hcomma
      | opening bracket =>
          rw [Role.eq_of_opening hrole] at hc
          exact absurd (Bracket.mem_openings_iff.2 ⟨bracket, rfl⟩) hc
      | closing =>
          have hpassed : head.ahead.passed (boundary opened) ≠ [] := by
            intro hpassed
            rw [Trail.found_of_passed_nil hpassed] at hfound
            rw [hfound] at henters
            exact henters hrole
          have hlength := Trail.length_found_lt hpassed
          obtain ⟨bracket, outer, hopened, hclosing⟩ := Role.eq_of_closing hrole
          cases opened with
          | nil => cases hopened
          | cons group opened =>
              obtain ⟨rfl, -⟩ := List.cons.inj hopened
              subst hclosing
              refine .read hprecedes ?_ ?_
              · rw [hplace]
                exact Pass.leads_closing hfound hlead
              · rw [hfound] at hlength
                rw [hplace]
                exact Nat.le_sub_one_of_lt hlength

/-- The comma after a closed group, if there is one. -/
theorem reads_group_comma (lead : Text) (bracket : Bracket) (children : List Node) :
    Reads ⟨opened, nodes, .group lead bracket children⟩ head
      (fun node => between opened (nodes ++ [node])) limit head.ahead.length
      (head.readComma (.group lead bracket children false)) := by
  by_cases hcomma : head.ahead.chars.head? = some separator
  · cases hahead : head.ahead with
    | stop gap =>
        rw [hahead] at hcomma
        cases hcomma
    | step gap c next =>
        rw [hahead] at hcomma
        cases hcomma
        obtain ⟨after, hread, hafter, hprecedes⟩ :=
          readComma_of_comma (.group lead bracket children false) hahead
        rw [hread]
        refine .read hprecedes ?_ ?_
        · rw [hahead, hafter]
          exact Pass.leads_group_comma
        · rw [hafter]
          exact Nat.le_succ _
  · rw [readComma_of_ne _ hcomma]
    exact .read (.refl head) (Pass.leads_group hcomma) (Nat.le_refl _)

/-- The children of a group, if every child is read as a pass reads it. -/
theorem reads_children {child : Head → Except Fault (Reading Node)} (group : Opened)
    (hchild : ∀ nodes head, Enters (group :: opened) nodes head.ahead →
      Reads (between (group :: opened) nodes) head
        (fun node => between (group :: opened) (nodes ++ [node])) limit (head.ahead.length - 1)
        (child head))
    {fuel : Nat} (hfuel : head.ahead.length < fuel) :
    Reads (between (group :: opened) nodes) head
      (fun children => ⟨opened, group.nodes,
        .group group.lead group.bracket (nodes ++ children)⟩) limit head.ahead.length
      (head.readChildren group.bracket group.lead child fuel) := by
  induction fuel generalizing nodes head with
  | zero => exact absurd hfuel (Nat.not_lt_zero _)
  | succ fuel ih =>
      cases hahead : head.ahead with
      | stop gap =>
          have hrun : (between (group :: opened) nodes).run head.ahead =
              .error ⟨.unclosed group.bracket group.lead, head.unread⟩ := by
            rw [hahead, unread, hahead]
            rfl
          rw [← hahead, readChildren_of_stop hahead]
          exact .refused (.refl head) hrun
      | step gap c next =>
          by_cases hc : c = group.bracket.closing
          · subst hc
            obtain ⟨after, hread, hafter, hprecedes⟩ :=
              readChildren_of_closing group.lead child fuel hahead
            rw [hread]
            refine .read hprecedes ?_ ?_
            · rw [hahead, hafter]
              exact Pass.leads_group_closing
            · rw [hafter]
              exact Nat.le_succ _
          · have henters : Enters (group :: opened) nodes head.ahead := by
              rw [hahead]
              intro hrole
              obtain ⟨bracket, outer, hopened, hclosing⟩ := Role.eq_of_closing hrole
              obtain ⟨rfl, -⟩ := List.cons.inj hopened
              exact hc hclosing
            rw [readChildren_of_child _ _ _ hahead hc]
            refine (hchild nodes head henters).andThen ?_
            intro node place hlength
            rw [hahead, Trail.length] at hlength hfuel
            refine Reads.mono ?_ (Nat.le_succ_of_le hlength)
            refine (@ih (nodes ++ [node]) place (by omega)).map (node :: ·) ?_
            intro children
            rw [List.append_assoc]
            rfl

/-- Every node is read as a pass reads it. -/
theorem reads_node (henters : Enters opened nodes head.ahead) (allowance : Nat) :
    Reads (between opened nodes) head (fun node => between opened (nodes ++ [node]))
      (opened.length + allowance) (head.ahead.length - 1)
      (head.readNode allowance (Bracket.stops (opened.map Opened.bracket))) := by
  induction allowance generalizing opened nodes head with
  | zero =>
      refine .tooDeep ?_
      have hpeak := Bracket.length_le_peak (opened.map Opened.bracket) head.ahead.chars
      rwa [List.length_map] at hpeak
  | succ allowance ih =>
      cases hfound : head.ahead.found (boundary opened) with
      | stop gap =>
          obtain ⟨place, hprecedes, hplace, hread⟩ := readNode_of_stop hfound
          rw [hread]
          exact reads_last_leaf henters hfound hprecedes hplace
      | step gap c next =>
          by_cases hc : c ∈ Bracket.openings
          · obtain ⟨bracket, rfl⟩ := Bracket.mem_openings_iff.1 hc
            obtain ⟨inside, hprecedes, hinside, hread⟩ := readNode_of_opening hfound
            have hleads := Pass.leads_opening nodes hfound
            have hlength := Trail.length_found_le (boundary opened) head.ahead
            rw [hfound] at hlength
            rw [hread]
            rw [← hinside] at hleads hlength ⊢
            refine Reads.of_leads ?_ hprecedes hleads
            refine Reads.andThen (reads_children _ ?_ (Nat.lt_succ_self _)) ?_
            · intro nodes' head' henters'
              have hchild := ih henters'
              rw [List.length_cons, Nat.succ_add_eq_add_succ] at hchild
              exact hchild
            · intro children place hplace
              refine (reads_group_comma _ _ _).mono ?_
              exact Nat.le_trans hplace (Nat.le_sub_one_of_lt hlength)
          · obtain ⟨place, hprecedes, hplace, hread⟩ := readNode_of_end hfound hc
            rw [hread]
            exact reads_leaf henters hfound hc hprecedes hplace

end Head

/-! ## Whole texts -/

/-- A reading to the end of a text comes to what a pass comes to.  It reports nothing, or
why the pass is given up, and where. -/
inductive Tells (run : Except Halt Forest) : Reading Forest → Prop
  | refused {refusal : Refusal} {next : Head} (run_eq : run = .error ⟨refusal, next.unread⟩) :
      Tells run ⟨none, next,
        refusal.events ++ [.abandoned next.offset next.source.text.length]⟩
  | read {forest : Forest} {next : Head} (run_eq : run = .ok forest) :
      Tells run (.ofValue forest next)

/-- Nodes are read side by side as a pass reads them. -/
theorem Head.readNodes_cases {nodes : List Node} {head : Head}
    (henters : Enters [] nodes head.ahead) (limit : Nat) {fuel : Nat}
    (hfuel : head.ahead.length < fuel) :
    (head.readNodes limit fuel = .error .tooDeep ∧ limit ≤ Bracket.peak [] head.ahead.chars) ∨
    ∃ reading result, head.readNodes limit fuel = .ok reading ∧ head.Precedes reading.head ∧
      Tells result reading ∧ (between [] nodes).run head.ahead = result.map (nodes ++ ·) := by
  induction fuel generalizing nodes head with
  | zero => exact absurd hfuel (Nat.not_lt_zero _)
  | succ fuel ih =>
      have hfirst := reads_node henters limit
      simp only [List.length_nil, Nat.zero_add, List.map_nil, Bracket.stops] at hfirst
      unfold readNodes
      generalize head.readNode limit [separator] = result at hfirst ⊢
      cases hfirst with
      | tooDeep deep => exact .inl ⟨rfl, deep⟩
      | refused precedes run_eq => exact .inr ⟨_, _, rfl, precedes, .refused rfl, run_eq⟩
      | @read node place precedes leads length_le =>
          dsimp only [bind, Except.bind, pure, Except.pure]
          rw [Reading.orAbandoned, Reading.ofValue]
          dsimp only
          rw [← Reading.ofValue, Reading.andThen_ofValue]
          cases hplace : place.ahead with
          | stop gap =>
              rw [isEmpty_of_ahead_stop hplace]
              refine .inr ⟨_, .ok [node], rfl, precedes, .read rfl, ?_⟩
              rw [leads.run_eq, hplace, Pass.run_between_stop (by simp)]
              rfl
          | step gap c next =>
              have henters' : Enters [] (nodes ++ [node]) place.ahead := by
                rw [hplace]
                exact Pass.enters_step _ gap c next
              have hshorter : place.ahead.length < fuel := by
                have hpositive : 0 < place.ahead.length := by
                  rw [hplace]
                  exact Nat.succ_pos _
                omega
              rw [isEmpty_of_ahead_step hplace]
              rcases ih henters' hshorter with
                ⟨hread, deep⟩ | ⟨rest, result, hread, precedes', htells, hrun⟩
              · refine .inl ⟨?_, Nat.le_trans deep leads.peak_le⟩
                rw [hread]
                rfl
              · rw [hread]
                refine .inr ⟨_, result.map (node :: ·), rfl, precedes.trans precedes', ?_, ?_⟩
                · cases htells with
                  | refused run_eq => exact .refused (congrArg _ run_eq)
                  | read run_eq => exact .read (congrArg _ run_eq)
                · rw [leads.run_eq, hrun]
                  cases result with
                  | error halt => rfl
                  | ok forest => simp [Except.map]

/-- A text is read as a pass reads it, unless it nests too deep. -/
theorem Forest.read_cases (limit : Nat) (text : Text) :
    (Forest.read limit text = .error .tooDeep ∧ limit ≤ text.nesting) ∨
    ∃ reading, Forest.read limit text = .ok reading ∧
      (Head.ofText text).Precedes reading.head ∧
      Tells (Pass.initial.run (Trail.ofText text)) reading := by
  rcases Head.readNodes_cases (Pass.enters_initial _) limit (Nat.lt_succ_self _) with
    hdeep | ⟨reading, result, hread, precedes, htells, hrun⟩
  · exact .inl hdeep
  · refine .inr ⟨reading, hread, precedes, ?_⟩
    have hresult : Pass.initial.run (Trail.ofText text) = result := by
      refine Eq.trans hrun ?_
      cases result <;> rfl
    rwa [hresult]

variable {limit : Nat} {text : Text} {reading : Reading Forest}

/-- Below the limit every text is read. -/
theorem Forest.exists_read (h : text.nesting < limit) :
    ∃ reading, Forest.read limit text = .ok reading := by
  rcases read_cases limit text with ⟨-, hdeep⟩ | ⟨reading, hread, -⟩
  · omega
  · exact ⟨reading, hread⟩

theorem Forest.tells_of_read (h : Forest.read limit text = .ok reading) :
    Tells (Pass.initial.run (Trail.ofText text)) reading := by
  rcases read_cases limit text with ⟨hdeep, -⟩ | ⟨reading', hread, -, htells⟩
  · cases hdeep.symm.trans h
  · cases hread.symm.trans h
    exact htells

/-- A text has a forest just when a pass over it comes to that forest. -/
theorem Forest.run_eq_ok_iff {forest : Forest} (h : Forest.read limit text = .ok reading) :
    Pass.initial.run (Trail.ofText text) = .ok forest ↔
      reading.forest = forest ∧ forest ≠ [] := by
  cases tells_of_read h with
  | @read found next run_eq =>
      have hne := Pass.run_ne_nil run_eq
      rw [run_eq]
      constructor
      · intro hsame
        cases hsame
        exact ⟨rfl, hne⟩
      · rintro ⟨hsame, -⟩
        exact congrArg _ hsame
  | refused run_eq =>
      rw [run_eq]
      constructor
      · intro hsame
        cases hsame
      · rintro ⟨hsame, hne⟩
        exact absurd hsame.symm hne

end Bracketed
