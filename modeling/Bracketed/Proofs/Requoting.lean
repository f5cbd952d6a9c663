import Bracketed.Proofs.Token
import Bracketed.Proofs.Trim

/-!
# Requoting

Quoted spans may be exchanged for others, an ended one for an ended one and one that is left
open for one that is left open.  The unquoted characters and their order stay, so exchanging
runs through everything that is made of a text: its tokens, its trail, the pieces that it is
cut into, and the text without its first blanks.
-/

namespace Bracketed

/-- A quoted span in place of every quoted span. -/
structure Requoting where
  put : Text → Text
  span {text : Text} : text.Span → (put text).Span
  loose {text : Text} : text.Loose → (put text).Loose

variable {requoting : Requoting}

def Token.requote (requoting : Requoting) : Token → Token
  | char c => char c
  | span text => span (requoting.put text)
  | loose text => loose (requoting.put text)

/-- The text with every quoted span exchanged. -/
def Text.requote (requoting : Requoting) (text : Text) : Text :=
  (text.tokens.map (Token.requote requoting)).flatMap Token.spell

/-- The trail with every quoted span exchanged. -/
def Trail.requote (requoting : Requoting) : Trail → Trail
  | stop gap => stop (gap.requote requoting)
  | step gap char next => step (gap.requote requoting) char (next.requote requoting)

theorem Token.Regular.requote {tokens : List Token} (h : Regular tokens) :
    Regular (tokens.map (Token.requote requoting)) := by
  induction h with
  | nil => exact .nil
  | char hmark hrest ih => exact .char hmark ih
  | span hspan hrest ih => exact .span (requoting.span hspan) ih
  | loose hloose => exact .loose (requoting.loose hloose)

namespace Text

variable {first text : Text} {c : Char}

theorem tokens_requote (requoting : Requoting) (text : Text) :
    (text.requote requoting).tokens = text.tokens.map (Token.requote requoting) :=
  text.regular_tokens.requote.tokens_flatMap

theorem Closed.requote_append (h : first.Closed) (requoting : Requoting) (second : Text) :
    (first ++ second).requote requoting =
      first.requote requoting ++ second.requote requoting := by
  rw [requote, h.tokens_append, List.map_append, List.flatMap_append]
  rfl

theorem requote_cons (h : Mark.ofChar? c = none) (requoting : Requoting) (rest : Text) :
    requote requoting (c :: rest) = c :: rest.requote requoting := by
  rw [requote, tokens_cons h]
  rfl

theorem requote_singleton (h : Mark.ofChar? c = none) (requoting : Requoting) :
    requote requoting [c] = [c] :=
  requote_cons h requoting []

theorem Span.requote (h : text.Span) (requoting : Requoting) :
    text.requote requoting = requoting.put text := by
  rw [Text.requote, h]
  exact List.append_nil _

theorem Loose.requote (h : text.Loose) (requoting : Requoting) :
    text.requote requoting = requoting.put text := by
  rw [Text.requote, h]
  exact List.append_nil _

theorem requote_eq_nil_iff : text.requote requoting = [] ↔ text = [] := by
  rw [← tokens_eq_nil_iff, tokens_requote, List.map_eq_nil_iff, tokens_eq_nil_iff]

end Text

/-! ## Trails -/

theorem Token.Regular.trail_requote {tokens : List Token} (h : Regular tokens) :
    trail (tokens.map (Token.requote requoting)) = (trail tokens).requote requoting := by
  induction h with
  | nil => rfl
  | char hmark hrest ih =>
      rw [List.map_cons, Token.requote, trail, ih, trail]
      rfl
  | @span text rest hspan hrest ih =>
      have hprepend : ∀ next : Trail, (next.prepend text).requote requoting =
          (next.requote requoting).prepend (requoting.put text) := by
        intro next
        cases next <;>
          simp only [Trail.prepend, Trail.requote, hspan.closed.requote_append, hspan.requote]
      rw [List.map_cons, Token.requote, trail, ih, trail, hprepend]
  | @loose text hloose =>
      simp only [List.map_cons, List.map_nil, Token.requote, trail, Trail.prepend, Trail.requote,
        List.append_nil, hloose.requote]

namespace Text

theorem ofText_requote (requoting : Requoting) (text : Text) :
    Trail.ofText (text.requote requoting) = (Trail.ofText text).requote requoting := by
  rw [← trail_tokens, tokens_requote, text.regular_tokens.trail_requote, trail_tokens]

theorem unquoted_requote (requoting : Requoting) (text : Text) :
    (text.requote requoting).unquoted = text.unquoted := by
  have hchars : ∀ trail : Trail, (trail.requote requoting).chars = trail.chars := by
    intro trail
    induction trail with
    | stop gap => rfl
    | step gap c next ih => rw [Trail.requote, Trail.chars, ih, Trail.chars]
  rw [unquoted, ofText_requote, hchars, unquoted]

theorem nesting_requote (requoting : Requoting) (text : Text) :
    (text.requote requoting).nesting = text.nesting := by
  rw [nesting, unquoted_requote, nesting]

/-! ## First blanks -/

/-- No span begins like an unquoted character. -/
theorem head_of_requote {text rest : Text} {c : Char} (hmark : Mark.ofChar? c = none)
    (h : text.requote requoting = c :: rest) : ∃ more, text = c :: more := by
  have htokens := text.tokens_requote requoting
  rw [h, tokens_cons hmark] at htokens
  cases hfirst : text.tokens with
  | nil =>
      rw [hfirst] at htokens
      cases htokens
  | cons token tokens =>
      have hspell := text.flatMap_spell_tokens
      rw [hfirst, List.flatMap_cons] at hspell
      rw [hfirst, List.map_cons, List.cons.injEq] at htokens
      cases token with
      | char c' =>
          cases htokens.1
          exact ⟨_, hspell.symm⟩
      | span text => cases htokens.1
      | loose text => cases htokens.1

theorem requote_trimLeft (requoting : Requoting) (text : Text) :
    text.trimLeft.requote requoting = (text.requote requoting).trimLeft := by
  induction text with
  | nil => rfl
  | cons c rest ih =>
      by_cases hblank : isBlank c = true
      · rw [requote_cons (Mark.ofChar?_of_isBlank hblank)]
        have hdrop : ∀ text, trimLeft (c :: text) = trimLeft text :=
          fun text => List.dropWhile_cons_of_pos hblank
        rw [hdrop, hdrop, ih]
      · rw [trimLeft_eq_self (Bool.eq_false_iff.2 hblank)]
        cases hrequote : requote requoting (c :: rest) with
        | nil => rfl
        | cons first more =>
            have hfirst : isBlank first ≠ true := by
              intro hblank_first
              obtain ⟨more, hcons⟩ :=
                head_of_requote (Mark.ofChar?_of_isBlank hblank_first) hrequote
              rw [(List.cons.inj hcons).1] at hblank
              exact hblank hblank_first
            rw [trimLeft_eq_self (Bool.eq_false_iff.2 hfirst)]

end Text

/-! ## Lengths -/

/-- Two ways to exchange spans for spans as long as each other. -/
def Requoting.Even (first second : Requoting) : Prop :=
  ∀ span, (first.put span).length = (second.put span).length

theorem Requoting.Even.length_requote {first second : Requoting} (h : first.Even second)
    (text : Text) : (text.requote first).length = (text.requote second).length := by
  have htoken : ∀ token : Token,
      (token.requote first).spell.length = (token.requote second).spell.length := by
    intro token
    cases token with
    | char c => rfl
    | span text => exact h text
    | loose text => exact h text
  rw [Text.requote, Text.requote]
  induction text.tokens with
  | nil => rfl
  | cons token rest ih =>
      simp only [List.map_cons, List.flatMap_cons, List.length_append, ih, htoken]

end Bracketed
