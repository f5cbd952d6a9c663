import Bracketed.Proofs.Agreement
import Bracketed.Proofs.Canonical
import Bracketed.Proofs.Depth

/-!
# Round trip

A canonical forest that is written on one line is read back as it was.  A pass takes
its nodes one by one, and what may come behind a node is all that it needs to know of
the rest: a closing bracket or the end behind a bare leaf, and no comma behind a group
that has none.
-/

namespace Bracketed

/-! ## Leads -/

theorem Trail.found_append {stops : Text} {first next : Trail} {c : Char}
    (h : ∀ c' ∈ first.chars, c' ∉ stops) (hc : c ∈ stops) :
    ∃ gap, (first.append (.step [] c next)).found stops = .step gap c next ∧
      (first.append (.step [] c next)).upTo stops = first.text := by
  induction first with
  | stop gap =>
      refine ⟨gap ++ [], found_step_of_mem hc, ?_⟩
      rw [append, upTo, prepend, found_step_of_mem hc, passed_step_of_mem hc]
      simp [Trail.gap, text]
  | step gap char rest ih =>
      have hchar : char ∉ stops := h char List.mem_cons_self
      obtain ⟨gap', hfound, hupTo⟩ := ih fun c' hmem => h c' (List.mem_cons_of_mem _ hmem)
      refine ⟨gap', ?_, ?_⟩
      · rw [append, found_step_of_not_mem hchar, hfound]
      · rw [upTo] at hupTo
        rw [append, upTo, found_step_of_not_mem hchar, passed_step_of_not_mem hchar, text, ← hupTo]
        simp

theorem Trail.found_eq_stop {stops : Text} {trail : Trail}
    (h : ∀ c ∈ trail.chars, c ∉ stops) : ∃ gap, trail.found stops = .stop gap := by
  induction trail with
  | stop gap => exact ⟨gap, rfl⟩
  | step gap char next ih =>
      rw [found_step_of_not_mem (h char List.mem_cons_self)]
      exact ih fun c hmem => h c (List.mem_cons_of_mem _ hmem)

namespace Bracket

/-- What ends a bare leaf inside some open brackets. -/
def Ends (opened : List Bracket) (after : Text) : Prop :=
  match opened with
  | [] => after = []
  | bracket :: _ => ∃ rest, after = bracket.closing :: rest

end Bracket

namespace Pass

variable {opened : List Opened} {nodes : List Node} {lead : Text} {c : Char}

/-- A lead goes to the character behind it. -/
theorem run_lead (hplain : lead.Plain (opened.map Opened.bracket)) (hclosed : lead.Closed)
    (hmark : Mark.ofChar? c = none) (hmem : c ∈ boundary opened) (rest : Text) :
    (between opened nodes).run (Trail.ofText (lead ++ c :: rest)) =
      (between opened nodes).run (.step lead c (Trail.ofText rest)) := by
  have hlead : ∀ c' ∈ (Trail.ofText lead).chars, c' ∉ boundary opened := by
    intro c' hmem
    exact Role.of_eq_plain_iff.1 (hplain c' hmem)
  obtain ⟨gap, hfound, hupTo⟩ := @Trail.found_append _ _ (Trail.ofText rest) _ hlead hmem
  rw [hclosed.ofText_append, Trail.ofText_cons hmark, run_found hfound, hupTo, Trail.text_ofText]

/-- A text that is plain to its end is a leaf. -/
theorem run_ending (hplain : lead.Plain (opened.map Opened.bracket)) (hne : lead ≠ [])
    (hlost : lead.Quoted → nodes = []) :
    (between opened nodes).run (Trail.ofText lead) =
      (between opened (nodes ++ [.leaf lead false])).run (.stop []) := by
  obtain ⟨gap, hfound⟩ := @Trail.found_eq_stop (boundary opened) (Trail.ofText lead)
    fun c hmem => Role.of_eq_plain_iff.1 (hplain c hmem)
  have hspelled := Trail.passed_append_text_found (boundary opened) (Trail.ofText lead)
  rw [hfound, Trail.text, Trail.text_ofText] at hspelled
  rw [run_passed, hfound, List.nil_append]
  rw [← hspelled] at hne
  have hrun := @run_stop gap opened nodes _ hne
  rw [hspelled] at hrun
  apply hrun
  intro hpassed
  rw [Trail.found_of_passed_nil hpassed] at hfound
  exact hlost (Trail.quoted_of_ofText hfound)

end Pass

/-! ## Nodes -/

namespace Node

/-- What may come behind a node. -/
def Followed (opened : List Bracket) (node : Node) (after : Text) : Prop :=
  match node with
  | leaf _ true => True
  | leaf _ false => Bracket.Ends opened after
  | group _ _ _ true => True
  | group _ _ _ false => after.unquoted.head? ≠ some separator

end Node

namespace Text

variable {opened : List Bracket} {lead rest : Text} {c : Char}

theorem head?_cons_ne (hmark : Mark.ofChar? c = none) (hc : c ≠ separator) (rest : Text) :
    (unquoted (c :: rest)).head? ≠ some separator := by
  rw [unquoted_cons hmark]
  intro hhead
  exact hc (Option.some.inj hhead)

theorem Plain.head?_ne (hplain : lead.Plain opened) : lead.unquoted.head? ≠ some separator := by
  intro hhead
  have hrole := hplain separator (List.mem_of_head? hhead)
  cases hrole

theorem Plain.head?_append_ne (hplain : lead.Plain opened) (hclosed : lead.Closed)
    (hrest : lead.Quoted → rest.unquoted.head? ≠ some separator) :
    (lead ++ rest).unquoted.head? ≠ some separator := by
  have hlead := hplain.head?_ne
  rw [hclosed.unquoted_append]
  cases hunquoted : lead.unquoted with
  | nil => exact hrest hunquoted
  | cons c chars =>
      rw [hunquoted] at hlead
      exact hlead

end Text

/-- A node begins with no comma, unless it is nothing but quoted text before one. -/
theorem Node.Canonical.head?_ne {opened : List Bracket} {node : Node} {after : Text}
    (h : node.Canonical opened) (hafter : node.Followed opened after)
    (hquoted : ∀ lead, node = .leaf lead true → ¬ lead.Quoted) :
    (node.inline ++ after).unquoted.head? ≠ some separator := by
  cases h with
  | @leaf opened lead comma hne hplain hclosed =>
      cases comma with
      | true =>
          have hlead := hclosed.resolve_right fun hboth => Bool.noConfusion hboth.2
          rw [inline_leaf, List.append_assoc]
          refine hplain.head?_append_ne hlead ?_
          intro hall
          exact absurd hall (hquoted lead rfl)
      | false =>
          rw [inline_leaf, suffixText, if_neg Bool.false_ne_true, List.append_nil]
          cases opened with
          | nil =>
              cases hafter
              rw [List.append_nil]
              exact hplain.head?_ne
          | cons bracket outer =>
              have hlead := hclosed.resolve_right fun hboth => List.cons_ne_nil _ _ hboth.1
              obtain ⟨rest, rfl⟩ := hafter
              refine hplain.head?_append_ne hlead ?_
              intro _
              exact Text.head?_cons_ne bracket.ofChar?_closing bracket.closing_ne_separator rest
  | @group opened lead bracket children comma hplain hclosed hchildren hlinks =>
      rw [inline_group, List.append_assoc]
      refine hplain.head?_append_ne hclosed ?_
      intro _
      exact Text.head?_cons_ne bracket.ofChar?_opening bracket.opening_ne_separator _

theorem Bracket.Ends.head?_ne {opened : List Bracket} {tail : Text} (h : Ends opened tail) :
    tail.unquoted.head? ≠ some separator := by
  cases opened with
  | nil =>
      cases h
      intro hhead
      cases hhead
  | cons bracket outer =>
      obtain ⟨rest, rfl⟩ := h
      exact Text.head?_cons_ne bracket.ofChar?_closing bracket.closing_ne_separator rest

namespace Row

variable {opened : List Bracket} {node : Node} {rest : List Node} {after : Text}

/-- In a row every node is followed as it may be. -/
theorem followed (h : Row opened (node :: rest)) (hafter : Bracket.Ends opened after) :
    node.Followed opened (Node.inlineList rest ++ after) := by
  induction rest generalizing node with
  | nil =>
      rw [Node.inlineList, List.nil_append]
      rcases node with ⟨lead, _ | _⟩ | ⟨lead, bracket, children, _ | _⟩
      · exact hafter
      · exact trivial
      · exact hafter.head?_ne
      · exact trivial
  | cons next more ih =>
      have hnext := ih h.tail
      have hlinks : Node.Links opened node next := h.links.rel_head? rfl
      have hcanonical := h.tail.canonical next List.mem_cons_self
      rcases node with ⟨lead, _ | _⟩ | ⟨lead, bracket, children, _ | _⟩
      · exact absurd rfl hlinks.not_bare
      · exact trivial
      · have hhead := hcanonical.head?_ne hnext (hlinks.comma rfl)
        rw [← List.append_assoc] at hhead
        exact hhead
      · exact trivial

end Row

/-! ## Reading back -/

namespace Pass

variable {opened : List Opened} {nodes : List Node}

/-- A pass takes a node as it is, whatever row it stands in. -/
def Takes (node : Node) (brackets : List Bracket) : Prop :=
  ∀ (opened : List Opened) (nodes : List Node) (after : Text),
    opened.map Opened.bracket = brackets → node.Followed brackets after →
    (brackets = [] → ∀ lead, node = .leaf lead false → lead.Quoted → nodes = []) →
    (between opened nodes).run (Trail.ofText (node.inline ++ after)) =
      (between opened (nodes ++ [node])).run (Trail.ofText after)

theorem run_row {row : List Node} {tail : Text}
    (htakes : ∀ node ∈ row, Takes node (opened.map Opened.bracket))
    (hcanonical : Row (opened.map Opened.bracket) row)
    (hlinks : (nodes ++ row).IsChain (Node.Links (opened.map Opened.bracket)))
    (htail : Bracket.Ends (opened.map Opened.bracket) tail) :
    (between opened nodes).run (Trail.ofText (Node.inlineList row ++ tail)) =
      (between opened (nodes ++ row)).run (Trail.ofText tail) := by
  induction row generalizing nodes with
  | nil => rw [Node.inlineList, List.nil_append, List.append_nil]
  | cons node rest ih =>
      have hfollowed := hcanonical.followed htail
      have htaken := htakes node List.mem_cons_self opened nodes _ rfl hfollowed
      have hrest := @ih (nodes ++ [node])
        (fun node' hmem => htakes node' (List.mem_cons_of_mem _ hmem)) hcanonical.tail
      rw [List.append_assoc, List.singleton_append] at hrest
      rw [← hrest hlinks, ← htaken]
      · rw [Node.inlineList, Node.inline]
        simp
      · intro hroot lead hleaf hquoted
        by_contra hne
        have hjoint := (List.isChain_append.1 hlinks).2.2 _
          (List.getLast?_eq_some_getLast hne) node rfl
        exact hjoint.ending hroot lead hleaf hquoted

section Takes

variable {brackets : List Bracket} {lead : Text}

theorem takes_leaf_comma (hne : lead ≠ []) (hplain : lead.Plain brackets)
    (hclosed : lead.Closed) : Takes (.leaf lead true) brackets := by
  rintro opened nodes after rfl - -
  have hinline : (Node.leaf lead true).inline ++ after = lead ++ separator :: after := by
    simp [Node.inline_leaf, Node.suffixText]
  rw [hinline, run_lead hplain hclosed ofChar?_separator (Role.separator_mem_boundary _),
    run_comma hne]

/-- The one text that may leave a quote open is a leaf at the very end. -/
theorem takes_bare_leaf (hne : lead ≠ []) (hplain : lead.Plain brackets)
    (hclosed : lead.Closed ∨ brackets = []) : Takes (.leaf lead false) brackets := by
  rintro opened nodes after rfl hfollowed hfirst
  rw [Node.inline_leaf, Node.suffixText, if_neg Bool.false_ne_true, List.append_nil]
  cases opened with
  | nil =>
      cases hfollowed
      rw [List.append_nil, run_ending hplain hne (hfirst rfl lead rfl)]
      rfl
  | cons group outer =>
      have hlead := hclosed.resolve_right (List.cons_ne_nil _ _)
      obtain ⟨rest, rfl⟩ := hfollowed
      have hclosing := Role.closing_mem_boundary group.bracket (outer.map Opened.bracket)
      rw [run_lead hplain hlead group.bracket.ofChar?_closing hclosing,
        Trail.ofText_cons group.bracket.ofChar?_closing, run_closing, run_closing]
      simp [leafOf, hne]

theorem takes_group {bracket : Bracket} {children : List Node} (comma : Bool)
    (hplain : lead.Plain brackets) (hclosed : lead.Closed)
    (hchildren : ∀ child ∈ children, Takes child (bracket :: brackets))
    (hrow : Row (bracket :: brackets) children) :
    Takes (.group lead bracket children comma) brackets := by
  rintro opened nodes after rfl hfollowed -
  have hopening := Role.opening_mem_boundary (opened.map Opened.bracket) bracket
  have hinline : (Node.group lead bracket children comma).inline ++ after =
      lead ++ bracket.opening :: (Node.inlineList children ++
        bracket.closing :: (Node.suffixText comma ++ after)) := by
    simp [Node.inline_group]
  have hinside := @run_row (⟨nodes, lead, bracket⟩ :: opened) [] children
    (bracket.closing :: (Node.suffixText comma ++ after)) hchildren hrow hrow.links ⟨_, rfl⟩
  have hclose := @run_closing [] opened ([] ++ children)
    (Trail.ofText (Node.suffixText comma ++ after)) ⟨nodes, lead, bracket⟩
  dsimp only at hclose
  rw [hinline, run_lead hplain hclosed bracket.ofChar?_opening hopening, run_opening, hinside,
    Trail.ofText_cons bracket.ofChar?_closing, hclose, leafOf, if_pos rfl, List.append_nil,
    List.nil_append]
  cases comma with
  | true =>
      rw [Node.suffixText, if_pos rfl, List.singleton_append, Trail.ofText_cons ofChar?_separator,
        run_group_comma]
  | false =>
      rw [Node.suffixText, if_neg Bool.false_ne_true, List.nil_append, run_group hfollowed]

end Takes

/-- Every canonical node is taken as it is. -/
theorem takes_of_canonical {node : Node} {brackets : List Bracket}
    (h : node.Canonical brackets) : Takes node brackets := by
  induction h with
  | @leaf brackets lead comma hne hplain hclosed =>
      cases comma with
      | true =>
          have hlead := hclosed.resolve_right fun hboth => Bool.noConfusion hboth.2
          exact takes_leaf_comma hne hplain hlead
      | false => exact takes_bare_leaf hne hplain (hclosed.imp_right And.left)
  | group hplain hclosed hchildren hlinks ih =>
      exact takes_group _ hplain hclosed ih ⟨hchildren, hlinks⟩

end Pass

/-- A canonical forest is read back from its own line. -/
theorem Forest.run_inline {forest : Forest} (h : forest.Canonical) (hne : forest ≠ []) :
    Pass.initial.run (Trail.ofText forest.inline) = .ok forest := by
  have hrow := @Pass.run_row [] [] forest [] (fun node hmem => Pass.takes_of_canonical
    (h.canonical node hmem)) h h.links rfl
  rw [List.append_nil, List.nil_append] at hrow
  exact hrow.trans (Pass.run_between_stop hne [])

/-- Below the nesting limit a forest is read back from its own line just when it is
canonical. -/
theorem Forest.read_inline_iff {limit : Nat} {forest : Forest} (hne : forest ≠ [])
    (hdepth : Node.depthList forest < limit) :
    (∃ reading, Forest.read limit forest.inline = .ok reading ∧ reading.forest = forest) ↔
      forest.Canonical := by
  constructor
  · rintro ⟨reading, hread, hforest⟩
    exact canonical_of_run ((run_eq_ok_iff hread).2 ⟨hforest, hne⟩)
  · intro hcanonical
    have hrun := run_inline hcanonical hne
    have hnesting : Text.nesting forest.inline < limit := by
      rwa [Text.nesting_eq_depthList hrun]
    obtain ⟨reading, hread⟩ := exists_read hnesting
    exact ⟨reading, hread, ((run_eq_ok_iff hread).1 hrun).1⟩

/-- A quoted comma, a group without a comma before a bare leaf, and a quote that stays open
to the end. -/
theorem Forest.read_inline_quoted :
    ∃ reading,
      Forest.read 3
        ['f', '(', '\x22', ',', '\x22', ',', '[', ']', 'y', ')', ',', 'z', '\x27', '('] =
          .ok reading ∧
      reading.forest =
        [.group ['f'] .round [.leaf ['\x22', ',', '\x22'] true, .group [] .square [] false,
          .leaf ['y'] false] true, .leaf ['z', '\x27', '('] false] := by
  have hbare : Row [.round] [.leaf ['y'] false] :=
    Row.cons (.leaf (by decide) (by decide) (.inl (by decide))) (Row.nil _) (by simp)
  have hsquare : Row [.round] [.group [] .square [] false, .leaf ['y'] false] := by
    refine Row.cons (.group (by decide) (by decide) (by simp) .nil) hbare ?_
    rintro next ⟨⟩
    exact .bare_leaf id (by simp)
  have hinside : Row [.round] [.leaf ['\x22', ',', '\x22'] true, .group [] .square [] false,
      .leaf ['y'] false] := by
    refine Row.cons (.leaf (by decide) (by decide) (.inl (by decide))) hsquare ?_
    rintro next ⟨⟩
    exact .group (by simp [Node.Bare]) _ _ _ _
  have hopen : Row [] [.leaf ['z', '\x27', '('] false] :=
    Row.cons (.leaf (by decide) (by decide) (.inr ⟨rfl, rfl⟩)) (Row.nil _) (by simp)
  have hcanonical : Forest.Canonical
      [.group ['f'] .round [.leaf ['\x22', ',', '\x22'] true, .group [] .square [] false,
        .leaf ['y'] false] true, .leaf ['z', '\x27', '('] false] := by
    refine Row.cons (.group (by decide) (by decide) hinside.canonical hinside.links) hopen ?_
    rintro next ⟨⟩
    exact .bare_leaf id (fun _ => by decide)
  have hread := (@Forest.read_inline_iff 3 _ (List.cons_ne_nil _ _) (by decide +kernel)).2 hcanonical
  have hinline : Forest.inline
      [.group ['f'] .round [.leaf ['\x22', ',', '\x22'] true, .group [] .square [] false,
        .leaf ['y'] false] true, .leaf ['z', '\x27', '('] false] =
      ['f', '(', '\x22', ',', '\x22', ',', '[', ']', 'y', ')', ',', 'z', '\x27', '('] := rfl
  rwa [hinline] at hread

end Bracketed
