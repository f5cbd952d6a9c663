import Bracketed.Proofs.Quoting

/-!
# Tokens

A text is a sequence of tokens: unquoted characters, and quoted spans from a mark to the one
that ends it.  A span that nothing ends reaches the end of the text.  Tokens spell out their
text, and a sequence in which every token stands for itself is the one of the text that it
spells out.
-/

namespace Bracketed

inductive Token
  | char (c : Char)
  /-- From a mark to the one that ends it. -/
  | span (text : Text)
  /-- From a mark that nothing ends. -/
  | loose (text : Text)
deriving DecidableEq, Repr

namespace Token

/-- The text of a token. -/
def spell : Token → Text
  | char c => [c]
  | span text => text
  | loose text => text

/-- The gaps and the unquoted characters of some tokens. -/
def trail : List Token → Trail
  | [] => .stop []
  | char c :: rest => .step [] c (trail rest)
  | span text :: rest => (trail rest).prepend text
  | loose text :: rest => (trail rest).prepend text

end Token

namespace Quoting

/-- The tokens of a text that is read from here on, behind the beginning of a span. -/
def tokens (quoting : Quoting) (begun : Text) : Text → List Token
  | [] => if quoting = outside then [] else [.loose begun]
  | c :: rest =>
      if quoting.Shows c then .char c :: (quoting.step c).tokens [] rest
      else if quoting.step c = outside then .span (begun ++ [c]) :: outside.tokens [] rest
      else (quoting.step c).tokens (begun ++ [c]) rest

end Quoting

namespace Text

def tokens (text : Text) : List Token :=
  Quoting.outside.tokens [] text

/-- One quoted span and nothing else. -/
def Span (text : Text) : Prop :=
  text.tokens = [.span text]

/-- One span that is not ended. -/
def Loose (text : Text) : Prop :=
  text.tokens = [.loose text]

instance (text : Text) : Decidable text.Span :=
  inferInstanceAs (Decidable (_ = _))

instance (text : Text) : Decidable text.Loose :=
  inferInstanceAs (Decidable (_ = _))

end Text

/-- Tokens that each stand for themselves, the last of which may be left open. -/
inductive Token.Regular : List Token → Prop
  | nil : Regular []
  | char {c : Char} {rest : List Token} :
      Mark.ofChar? c = none → Regular rest → Regular (.char c :: rest)
  | span {text : Text} {rest : List Token} :
      text.Span → Regular rest → Regular (.span text :: rest)
  | loose {text : Text} : text.Loose → Regular [.loose text]

/-! ## From a text to its tokens -/

namespace Quoting

variable {quoting : Quoting} {begun : Text} {c : Char}

theorem tokens_cons_of_shows (h : quoting.Shows c) (begun rest : Text) :
    quoting.tokens begun (c :: rest) = .char c :: outside.tokens [] rest := by
  rw [tokens, if_pos h, step_of_shows h]

theorem tokens_cons_of_ends (h : ¬ quoting.Shows c) (hstep : quoting.step c = outside)
    (begun rest : Text) :
    quoting.tokens begun (c :: rest) = .span (begun ++ [c]) :: outside.tokens [] rest := by
  rw [tokens, if_neg h, if_pos hstep]

theorem tokens_cons_of_stays (h : ¬ quoting.Shows c) (hstep : quoting.step c ≠ outside)
    (begun rest : Text) :
    quoting.tokens begun (c :: rest) = (quoting.step c).tokens (begun ++ [c]) rest := by
  rw [tokens, if_neg h, if_neg hstep]

/-- A character is unquoted, ends a span, or belongs to one. -/
theorem shows_or_ends_or_stays (quoting : Quoting) (c : Char) :
    quoting.Shows c ∨ (¬ quoting.Shows c ∧ quoting.step c = outside) ∨
      (¬ quoting.Shows c ∧ quoting.step c ≠ outside) := by
  by_cases hshows : quoting.Shows c
  · exact .inl hshows
  · by_cases hstep : quoting.step c = outside
    · exact .inr (.inl ⟨hshows, hstep⟩)
    · exact .inr (.inr ⟨hshows, hstep⟩)

theorem flatMap_spell_tokens (h : quoting = outside → begun = []) (text : Text) :
    (quoting.tokens begun text).flatMap Token.spell = begun ++ text := by
  induction text generalizing quoting begun with
  | nil =>
      by_cases hquoting : quoting = outside
      · simp [tokens, hquoting, h hquoting]
      · simp [tokens, hquoting, Token.spell]
  | cons c rest ih =>
      have hrest : (outside.tokens [] rest).flatMap Token.spell = rest := ih fun _ => rfl
      rcases quoting.shows_or_ends_or_stays c with hshows | ⟨hshows, hstep⟩ | ⟨hshows, hstep⟩
      · rw [tokens_cons_of_shows hshows, List.flatMap_cons, hrest, h hshows.1]
        rfl
      · rw [tokens_cons_of_ends hshows hstep, List.flatMap_cons, hrest, Token.spell,
          List.append_assoc]
        rfl
      · rw [tokens_cons_of_stays hshows hstep, ih (fun hout => absurd hout hstep),
          List.append_assoc]
        rfl

/-- The trail of a text is that of its tokens. -/
theorem trail_tokens (h : quoting = outside → begun = []) (text : Text) :
    Token.trail (quoting.tokens begun text) = (quoting.trail text).prepend begun := by
  have hwiden : ∀ (begun : Text) (c : Char) (trail : Trail),
      (trail.widen c).prepend begun = trail.prepend (begun ++ [c]) := by
    intro begun c trail
    cases trail <;> simp [Trail.widen, Trail.prepend]
  induction text generalizing quoting begun with
  | nil =>
      rw [trail_nil]
      by_cases hquoting : quoting = outside
      · rw [tokens, if_pos hquoting, h hquoting]
        rfl
      · rw [tokens, if_neg hquoting]
        rfl
  | cons c rest ih =>
      have hrest : Token.trail (outside.tokens [] rest) = outside.trail rest := by
        rw [ih fun _ => rfl]
        exact Trail.nil_append _
      rcases quoting.shows_or_ends_or_stays c with hshows | ⟨hshows, hstep⟩ | ⟨hshows, hstep⟩
      · rw [tokens_cons_of_shows hshows, trail_cons_of_shows hshows, step_of_shows hshows,
          Token.trail, hrest, h hshows.1]
        rfl
      · rw [tokens_cons_of_ends hshows hstep, trail_cons_of_not_shows hshows, hstep, hwiden,
          Token.trail, hrest]
      · rw [tokens_cons_of_stays hshows hstep, trail_cons_of_not_shows hshows, hwiden,
          ih (fun hout => absurd hout hstep)]

theorem tokens_append (h : quoting = outside → begun = []) {first : Text}
    (hclosed : first.foldl step quoting = outside) (second : Text) :
    quoting.tokens begun (first ++ second) =
      quoting.tokens begun first ++ outside.tokens [] second := by
  induction first generalizing quoting begun with
  | nil =>
      have hquoting : quoting = outside := hclosed
      rw [h hquoting, hquoting]
      rfl
  | cons c rest ih =>
      rw [List.foldl_cons] at hclosed
      rw [List.cons_append]
      rcases quoting.shows_or_ends_or_stays c with hshows | ⟨hshows, hstep⟩ | ⟨hshows, hstep⟩
      · rw [step_of_shows hshows] at hclosed
        rw [tokens_cons_of_shows hshows, tokens_cons_of_shows hshows, ih (fun _ => rfl) hclosed]
        rfl
      · rw [hstep] at hclosed
        rw [tokens_cons_of_ends hshows hstep, tokens_cons_of_ends hshows hstep,
          ih (fun _ => rfl) hclosed]
        rfl
      · rw [tokens_cons_of_stays hshows hstep, tokens_cons_of_stays hshows hstep,
          ih (fun hout => absurd hout hstep) hclosed]

/-- A text is left open just when its last token is. -/
theorem exists_loose_mem_tokens (quoting : Quoting) (begun text : Text) :
    (∃ span, .loose span ∈ quoting.tokens begun text) ↔
      text.foldl step quoting ≠ outside := by
  induction text generalizing quoting begun with
  | nil =>
      by_cases hquoting : quoting = outside
      · simp [tokens, hquoting]
      · simp [tokens, hquoting]
  | cons c rest ih =>
      rw [List.foldl_cons]
      rcases quoting.shows_or_ends_or_stays c with hshows | ⟨hshows, hstep⟩ | ⟨hshows, hstep⟩
      · rw [tokens_cons_of_shows hshows, step_of_shows hshows, ← ih outside []]
        simp
      · rw [tokens_cons_of_ends hshows hstep, hstep, ← ih outside []]
        simp
      · rw [tokens_cons_of_stays hshows hstep, ih]

/-- Every token of a text stands for itself. -/
theorem regular_tokens
    (h : ∀ more, Text.tokens (begun ++ more) = quoting.tokens begun more) (text : Text) :
    Token.Regular (quoting.tokens begun text) := by
  induction text generalizing quoting begun with
  | nil =>
      by_cases hquoting : quoting = outside
      · rw [tokens, if_pos hquoting]
        exact .nil
      · have hbegun := h []
        rw [List.append_nil, tokens, if_neg hquoting] at hbegun
        rw [tokens, if_neg hquoting]
        exact .loose hbegun
  | cons c rest ih =>
      have hrest : Token.Regular (outside.tokens [] rest) := ih fun _ => rfl
      rcases quoting.shows_or_ends_or_stays c with hshows | ⟨hshows, hstep⟩ | ⟨hshows, hstep⟩
      · rw [tokens_cons_of_shows hshows]
        exact .char hshows.2 hrest
      · have hspan := h [c]
        rw [tokens_cons_of_ends hshows hstep] at hspan ⊢
        exact .span hspan hrest
      · rw [tokens_cons_of_stays hshows hstep]
        apply ih
        intro more
        rw [List.append_assoc, ← tokens_cons_of_stays hshows hstep]
        exact h (c :: more)

end Quoting

namespace Text

variable {first text : Text} {c : Char}

theorem flatMap_spell_tokens (text : Text) : text.tokens.flatMap Token.spell = text :=
  Quoting.flatMap_spell_tokens (fun _ => rfl) text

theorem trail_tokens (text : Text) : Token.trail text.tokens = Trail.ofText text := by
  rw [tokens, Quoting.trail_tokens fun _ => rfl]
  exact Trail.nil_append _

theorem Closed.tokens_append (h : first.Closed) (second : Text) :
    (first ++ second).tokens = first.tokens ++ second.tokens :=
  Quoting.tokens_append (fun _ => rfl) h second

theorem closed_iff_tokens : text.Closed ↔ ∀ span, .loose span ∉ text.tokens := by
  have hopen := Quoting.outside.exists_loose_mem_tokens [] text
  rw [← not_exists, tokens, hopen, ne_eq, Decidable.not_not]
  rfl

theorem regular_tokens (text : Text) : Token.Regular text.tokens :=
  Quoting.regular_tokens (fun _ => rfl) text

-- A backslash escapes a mark between double quotes, and means nothing behind a back quote.
example : Text.tokens ['a', '\x22', '\\', '\x22', '\x22', '\x60', '\\'] =
    [.char 'a', .span ['\x22', '\\', '\x22', '\x22'], .loose ['\x60', '\\']] := by
  decide

theorem tokens_cons (h : Mark.ofChar? c = none) (rest : Text) :
    tokens (c :: rest) = .char c :: rest.tokens :=
  Quoting.tokens_cons_of_shows ⟨rfl, h⟩ [] rest

theorem Span.closed (h : text.Span) : text.Closed := by
  rw [closed_iff_tokens, h]
  simp

theorem tokens_eq_nil_iff : text.tokens = [] ↔ text = [] := by
  constructor
  · intro hnil
    rw [← text.flatMap_spell_tokens, hnil]
    rfl
  · rintro rfl
    rfl

end Text

/-- Regular tokens are those of the text that they spell out. -/
theorem Token.Regular.tokens_flatMap {tokens : List Token} (h : Regular tokens) :
    Text.tokens (tokens.flatMap spell) = tokens := by
  induction h with
  | nil => rfl
  | char hmark hrest ih =>
      rw [List.flatMap_cons, spell, List.singleton_append, Text.tokens_cons hmark, ih]
  | span hspan hrest ih =>
      rw [List.flatMap_cons, spell, hspan.closed.tokens_append, ih, hspan]
      rfl
  | loose hloose =>
      rw [List.flatMap_singleton]
      exact hloose

end Bracketed
