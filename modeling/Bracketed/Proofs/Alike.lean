import Mathlib.Data.List.Forall2
import Bracketed.Proofs.RequotedLayout

/-!
# Alike texts

Two texts are alike if they differ in their quoted spans only, each ended or left open as the
other.  Both are then one pattern with exchanged spans, whose own spans all differ, so that
each place has a span of its own to stand for it.  Quoted content is opaque: alike texts are
read as forests that are alike in the same places, and spans of one length are formatted alike.
-/

namespace Bracketed

namespace Token

inductive Alike : Token → Token → Prop
  | char (c : Char) : Alike (char c) (char c)
  | span (text text' : Text) : Alike (span text) (span text')
  | loose (text text' : Text) : Alike (loose text) (loose text')

/-- The text of a quoted token. -/
def quote? : Token → Option Text
  | char _ => none
  | span text => some text
  | loose text => some text

/-- The quoted texts of some tokens. -/
def quotes (tokens : List Token) : List Text :=
  tokens.filterMap quote?

theorem alike_self (token : Token) : token.Alike token := by
  cases token with
  | char c => exact .char c
  | span text => exact .span text text
  | loose text => exact .loose text text

end Token

namespace Text

/-- Two texts with the same unquoted characters, and spans in the same places between them. -/
def Alike (text text' : Text) : Prop :=
  List.Forall₂ Token.Alike text.tokens text'.tokens

/-- Every token is as long as the one in its place. -/
def SameLengths (text text' : Text) : Prop :=
  List.Forall₂ (fun token token' : Token => token.spell.length = token'.spell.length)
    text.tokens text'.tokens

/-- The quoted spans of a text, in order. -/
def quotes (text : Text) : List Text :=
  Token.quotes text.tokens

/-! ## Spans that show a number -/

/-- A quoted span of so many strokes. -/
def tally (count : Nat) : Text :=
  '\x60' :: (List.replicate count '|' ++ ['\x60'])

/-- So many strokes in a quote that is not ended. -/
def looseTally (count : Nat) : Text :=
  '\x60' :: List.replicate count '|'

theorem tokens_strokes (begun : Text) (count : Nat) (rest : Text) :
    (Quoting.inside .back).tokens begun (List.replicate count '|' ++ rest) =
      (Quoting.inside .back).tokens (begun ++ List.replicate count '|') rest := by
  induction count generalizing begun with
  | zero => rw [List.replicate_zero, List.append_nil, List.nil_append]
  | succ count ih =>
      have hstroke := ih (begun ++ ['|'])
      rw [List.append_assoc, List.singleton_append] at hstroke
      rw [List.replicate_succ, List.cons_append]
      exact hstroke

theorem span_tally (count : Nat) : (tally count).Span :=
  tokens_strokes ['\x60'] count ['\x60']

theorem loose_looseTally (count : Nat) : (looseTally count).Loose := by
  have hstrokes := tokens_strokes ['\x60'] count []
  rw [List.append_nil] at hstrokes
  exact hstrokes

theorem count_tally (count : Nat) : (tally count).count '|' = count := by
  simp [tally]

theorem count_looseTally (count : Nat) : (looseTally count).count '|' = count := by
  simp [looseTally]

end Text

namespace Token

/-- The tokens with numbers from `first` on in place of what is quoted. -/
def number (first : Nat) : List Token → List Token
  | [] => []
  | char c :: rest => char c :: number first rest
  | span _ :: rest => span (Text.tally first) :: number (first + 1) rest
  | loose _ :: rest => loose (Text.looseTally first) :: number (first + 1) rest

theorem alike_number {tokens tokens' : List Token} (h : List.Forall₂ Alike tokens tokens')
    (first : Nat) : List.Forall₂ Alike (number first tokens) tokens' := by
  induction h generalizing first with
  | nil => exact .nil
  | cons halike hrest ih =>
      cases halike with
      | char c => exact .cons (.char c) (ih first)
      | span text text' => exact .cons (.span _ text') (ih (first + 1))
      | loose text text' => exact .cons (.loose _ text') (ih (first + 1))

theorem Regular.number {tokens : List Token} (h : Regular tokens) (first : Nat) :
    Regular (number first tokens) := by
  induction h generalizing first with
  | nil => exact .nil
  | char hmark hrest ih => exact .char hmark (ih first)
  | span hspan hrest ih => exact .span (Text.span_tally first) (ih (first + 1))
  | loose hloose => exact .loose (Text.loose_looseTally first)

theorem le_count_of_mem_quotes {tokens : List Token} {first : Nat} {text : Text}
    (h : text ∈ quotes (number first tokens)) : first ≤ text.count '|' := by
  induction tokens generalizing first with
  | nil => cases h
  | cons token rest ih =>
      cases token with
      | char c => exact ih h
      | span quoted =>
          rcases List.mem_cons.1 h with rfl | hrest
          · exact (Text.count_tally first).ge
          · exact Nat.le_of_succ_le (ih hrest)
      | loose quoted =>
          rcases List.mem_cons.1 h with rfl | hrest
          · exact (Text.count_looseTally first).ge
          · exact Nat.le_of_succ_le (ih hrest)

theorem not_mem_quotes_number {text : Text} {first : Nat} (h : text.count '|' = first)
    (tokens : List Token) : text ∉ quotes (number (first + 1) tokens) := by
  intro hmem
  have hle := le_count_of_mem_quotes hmem
  omega

/-- No number stands twice. -/
theorem nodup_quotes_number (first : Nat) (tokens : List Token) :
    (quotes (number first tokens)).Nodup := by
  induction tokens generalizing first with
  | nil => exact .nil
  | cons token rest ih =>
      cases token with
      | char c => exact ih first
      | span text =>
          exact List.nodup_cons.2
            ⟨not_mem_quotes_number (Text.count_tally first) rest, ih (first + 1)⟩
      | loose text =>
          exact List.nodup_cons.2
            ⟨not_mem_quotes_number (Text.count_looseTally first) rest, ih (first + 1)⟩

end Token

/-! ## Spans in the places of others -/

namespace Requoting

/-- Every span as it is. -/
def keep : Requoting where
  put := id
  span := id
  loose := id

/-- One span exchanged for another. -/
def update (requoting : Requoting) (old new : Text) (hspan : old.Span → new.Span)
    (hloose : old.Loose → new.Loose) : Requoting where
  put text := if text = old then new else requoting.put text
  span := by
    intro text htext
    split
    · next heq => exact hspan (heq ▸ htext)
    · exact requoting.span htext
  loose := by
    intro text htext
    split
    · next heq => exact hloose (heq ▸ htext)
    · exact requoting.loose htext

/-- Exchanging one more span changes nothing where it does not stand. -/
theorem exists_update {old new : Text} (hspan : old.Span → new.Span)
    (hloose : old.Loose → new.Loose) {tokens : List Token} (h : old ∉ Token.quotes tokens)
    {requoting : Requoting} (hkeep : ∀ text ∉ Token.quotes tokens, requoting.put text = text) :
    ∃ updated : Requoting, updated.put old = new ∧
      tokens.map (Token.requote updated) = tokens.map (Token.requote requoting) ∧
      ∀ text ∉ old :: Token.quotes tokens, updated.put text = text := by
  refine ⟨requoting.update old new hspan hloose, if_pos rfl, ?_, ?_⟩
  · apply List.map_congr_left
    intro token hmem
    have hne : ∀ text, token.quote? = some text → text ≠ old := by
      rintro text hquote rfl
      exact h (List.mem_filterMap.2 ⟨token, hmem, hquote⟩)
    cases token with
    | char c => rfl
    | span text => exact congrArg Token.span (if_neg (hne text rfl))
    | loose text => exact congrArg Token.loose (if_neg (hne text rfl))
  · intro text htext
    rw [List.mem_cons, not_or] at htext
    exact (if_neg htext.1).trans (hkeep text htext.2)

end Requoting

/-- Tokens whose spans all differ can be given any spans that are alike. -/
theorem Token.exists_requoting {tokens tokens' : List Token}
    (h : List.Forall₂ Alike tokens tokens') (hregular : Regular tokens)
    (hregular' : Regular tokens') (hnodup : (quotes tokens).Nodup) :
    ∃ requoting : Requoting, tokens.map (Token.requote requoting) = tokens' ∧
      ∀ text ∉ quotes tokens, requoting.put text = text := by
  induction h with
  | nil => exact ⟨.keep, rfl, fun _ _ => rfl⟩
  | @cons token token' rest rest' halike hrest ih =>
      cases halike with
      | char c =>
          cases hregular with
          | char hmark hregular =>
              cases hregular' with
              | char hmark' hregular' =>
                  obtain ⟨requoting, hmap, hkeep⟩ := ih hregular hregular' hnodup
                  refine ⟨requoting, ?_, hkeep⟩
                  rw [List.map_cons, hmap]
                  rfl
      | span text text' =>
          obtain ⟨hnew, hnodup⟩ := List.nodup_cons.1 hnodup
          cases hregular with
          | span hspan hregular =>
              cases hregular' with
              | span hspan' hregular' =>
                  obtain ⟨requoting, hmap, hkeep⟩ := ih hregular hregular' hnodup
                  have hloose : text.Loose → text'.Loose := fun hloose => absurd
                    (hspan.symm.trans hloose) (by simp)
                  obtain ⟨updated, hput, hsame, hkeep'⟩ :=
                    Requoting.exists_update (fun _ => hspan') hloose hnew hkeep
                  refine ⟨updated, ?_, hkeep'⟩
                  rw [List.map_cons, hsame, hmap, Token.requote, hput]
      | loose text text' =>
          obtain ⟨hnew, hnodup⟩ := List.nodup_cons.1 hnodup
          cases hregular with
          | loose hloose =>
              cases hregular' with
              | loose hloose' =>
                  obtain ⟨requoting, hmap, hkeep⟩ := ih .nil .nil hnodup
                  have hspan : text.Span → text'.Span := fun hspan => absurd
                    (hloose.symm.trans hspan) (by simp)
                  obtain ⟨updated, hput, hsame, hkeep'⟩ :=
                    Requoting.exists_update hspan (fun _ => hloose') hnew hkeep
                  refine ⟨updated, ?_, hkeep'⟩
                  rw [List.map_cons, hsame, hmap, Token.requote, hput]

/-! ## One pattern for two texts -/

/-- A text whose spans all differ, and two ways to exchange these and no other spans. -/
structure Pattern (text text' : Text) where
  frame : Text
  first : Requoting
  second : Requoting
  nodup : frame.quotes.Nodup
  first_of_not_mem : ∀ span ∉ frame.quotes, first.put span = span
  second_of_not_mem : ∀ span ∉ frame.quotes, second.put span = span
  requote_first : frame.requote first = text
  requote_second : frame.requote second = text'

namespace Text

variable {text text' : Text}

/-- Alike texts are one pattern with exchanged spans. -/
theorem Alike.exists_pattern (h : text.Alike text') : Nonempty (Pattern text text') := by
  have hregular := text.regular_tokens.number 0
  have htokens := hregular.tokens_flatMap
  have hnodup := Token.nodup_quotes_number 0 text.tokens
  have hself := List.forall₂_same.2 fun token (_ : token ∈ text.tokens) => token.alike_self
  have hfirst := Token.alike_number hself 0
  have hsecond := Token.alike_number h 0
  obtain ⟨first, hmap, hkeep⟩ :=
    Token.exists_requoting hfirst hregular text.regular_tokens hnodup
  obtain ⟨second, hmap', hkeep'⟩ :=
    Token.exists_requoting hsecond hregular text'.regular_tokens hnodup
  refine ⟨⟨(Token.number 0 text.tokens).flatMap Token.spell, first, second, ?_, ?_, ?_, ?_, ?_⟩⟩
  · rw [quotes, htokens]
    exact hnodup
  · rw [quotes, htokens]
    exact hkeep
  · rw [quotes, htokens]
    exact hkeep'
  · rw [requote, htokens, hmap, flatMap_spell_tokens]
  · rw [requote, htokens, hmap', flatMap_spell_tokens]

end Text

namespace Pattern

variable {text text' : Text}

/-- Where the texts have spans of one length, so have the two ways to exchange them. -/
theorem even (pattern : Pattern text text') (h : text.SameLengths text') :
    pattern.first.Even pattern.second := by
  have hlengths : ∀ token ∈ pattern.frame.tokens,
      (token.requote pattern.first).spell.length = (token.requote pattern.second).spell.length := by
    have htext := pattern.frame.tokens_requote pattern.first
    have htext' := pattern.frame.tokens_requote pattern.second
    rw [pattern.requote_first] at htext
    rw [pattern.requote_second] at htext'
    rw [Text.SameLengths, htext, htext', List.forall₂_map_left_iff, List.forall₂_map_right_iff,
      List.forall₂_same] at h
    exact h
  intro span
  by_cases hmem : span ∈ pattern.frame.quotes
  · obtain ⟨token, htoken, hquote⟩ := List.mem_filterMap.1 hmem
    have hlength := hlengths token htoken
    cases token with
    | char c => cases hquote
    | span text =>
        cases hquote
        exact hlength
    | loose text =>
        cases hquote
        exact hlength
  · rw [pattern.first_of_not_mem span hmem, pattern.second_of_not_mem span hmem]

end Pattern

namespace Text

variable {text text' : Text}

/-- A text in these layouts of its forest, or as it is if it has no forest. -/
def laidOut (text : Text) : List Layout → Text
  | [] => text
  | layout :: rest => (layout :: rest).flatMap (Layout.written 0)

/-- A text that is another one with exchanged spans is formatted as the layouts of that one
are written, with these spans exchanged. -/
theorem format_requote {limit : Nat} {requoting : Requoting} {layouts : List Layout}
    {reading base : Reading Forest} (hread : Forest.read limit (text.requote requoting) = .ok reading)
    (hbase : Forest.read limit text = .ok base) (hnodes : Layout.nodes layouts = base.forest)
    {width : Int} (hlayouts : Layout.requoteList requoting layouts =
      Forest.layouts width 0 0 (Node.requoteList requoting base.forest)) :
    (format limit (text.requote requoting) width).text =
      (text.laidOut layouts).requote requoting := by
  have hforest := Forest.forest_requote hbase hread
  have hexamine := (forest_examine hread).trans hforest
  cases layouts with
  | nil =>
      rw [← hnodes] at hexamine
      rw [format_of_forest_nil hexamine, laidOut]
  | cons layout rest =>
      have hne : base.forest ≠ [] := by
        rw [← hnodes]
        exact List.cons_ne_nil _ _
      have hcanonical := Forest.canonical_of_run ((Forest.run_eq_ok_iff hbase).2 ⟨rfl, hne⟩)
      have hne' : (examine limit (text.requote requoting)).forest ≠ [] := by
        rw [hexamine]
        exact mt Node.requoteList_eq_nil_iff.1 hne
      rw [format_of_forest_ne_nil hne', hexamine, laidOut,
        Forest.render_requote hcanonical hnodes hlayouts]

/-- Quoted content is opaque.  Of two alike texts both have a forest or neither has, and the
forests are one forest with exchanged spans.  If moreover the spans are of one length, the texts
are laid out as that forest is in one way, and formatted as what is then written of it, with
exchanged spans. -/
theorem Alike.exists_forests {limit : Nat} (h : text.Alike text') (hnesting : text.nesting < limit) :
    ∃ (pattern : Pattern text text') (base reading reading' : Reading Forest),
      Forest.read limit pattern.frame = .ok base ∧ Forest.read limit text = .ok reading ∧
      Forest.read limit text' = .ok reading' ∧
      reading.forest = Node.requoteList pattern.first base.forest ∧
      reading'.forest = Node.requoteList pattern.second base.forest ∧
      (reading.forest = [] ↔ reading'.forest = []) ∧
      (text.SameLengths text' → ∀ width, ∃ layouts : List Layout,
        Layout.nodes layouts = base.forest ∧
        Layout.requoteList pattern.first layouts = reading.forest.layouts width 0 0 ∧
        Layout.requoteList pattern.second layouts = reading'.forest.layouts width 0 0 ∧
        (format limit text width).text =
          (pattern.frame.laidOut layouts).requote pattern.first ∧
        (format limit text' width).text =
          (pattern.frame.laidOut layouts).requote pattern.second) := by
  obtain ⟨pattern⟩ := h.exists_pattern
  have hfirst := pattern.requote_first
  have hsecond := pattern.requote_second
  have hframe : pattern.frame.nesting < limit := by
    rw [← pattern.frame.nesting_requote pattern.first, hfirst]
    exact hnesting
  have hnesting' : text'.nesting < limit := by
    rw [← hsecond, nesting_requote]
    exact hframe
  obtain ⟨base, hbase⟩ := Forest.exists_read hframe
  obtain ⟨reading, hread⟩ := Forest.exists_read hnesting
  obtain ⟨reading', hread'⟩ := Forest.exists_read hnesting'
  have hframed := hread
  have hframed' := hread'
  rw [← hfirst] at hframed
  rw [← hsecond] at hframed'
  have hforest := Forest.forest_requote hbase hframed
  have hforest' := Forest.forest_requote hbase hframed'
  refine ⟨pattern, base, reading, reading', hbase, hread, hread', hforest, hforest', ?_, ?_⟩
  · rw [hforest, hforest', Node.requoteList_eq_nil_iff, Node.requoteList_eq_nil_iff]
  · intro hlengths width
    obtain ⟨layouts, hnodes, hlayouts, hlayouts'⟩ :=
      Forest.exists_layouts (pattern.even hlengths) width 0 0 base.forest
    have hformat := format_requote hframed hbase hnodes hlayouts
    have hformat' := format_requote hframed' hbase hnodes hlayouts'
    rw [hfirst] at hformat
    rw [hsecond] at hformat'
    rw [hforest, hforest']
    exact ⟨layouts, hnodes, hlayouts, hlayouts', hformat, hformat'⟩

/-- A comma between double quotes and a closing bracket between single quotes. -/
theorem Alike.exists_forests_closing :
    let text : Text := ['f', '(', '\x22', ',', '\x22', ')']
    let text' : Text := ['f', '(', '\x27', ')', '\x27', ')']
    ∃ (pattern : Pattern text text') (reading reading' : Reading Forest) (layouts : List Layout),
      Forest.read 2 text = .ok reading ∧ Forest.read 2 text' = .ok reading' ∧
      (reading.forest = [] ↔ reading'.forest = []) ∧
      Layout.requoteList pattern.first layouts = reading.forest.layouts 4 0 0 ∧
      (format 2 text 4).text = (pattern.frame.laidOut layouts).requote pattern.first ∧
      (format 2 text' 4).text = (pattern.frame.laidOut layouts).requote pattern.second := by
  intro text text'
  have halike : text.Alike text' :=
    .cons (.char 'f') (.cons (.char '(') (.cons (.span _ _) (.cons (.char ')') .nil)))
  have hlengths : text.SameLengths text' :=
    .cons rfl (.cons rfl (.cons rfl (.cons rfl .nil)))
  have hnesting : text.nesting < 2 := by decide +kernel
  obtain ⟨pattern, base, reading, reading', -, hread, hread', -, -, hnil, hformat⟩ :=
    halike.exists_forests hnesting
  obtain ⟨layouts, -, hlayouts, -, hwritten, hwritten'⟩ := hformat hlengths 4
  exact ⟨pattern, reading, reading', layouts, hread, hread', hnil, hlayouts, hwritten,
    hwritten'⟩

end Text

end Bracketed
