import Bracketed.Cli.Input

/-!
# Cuts behind line feeds

Bytes may be cut behind a line feed without a trace: no character that has begun goes on
beyond it, it follows a carriage return at most, and it ends a line.  So the lines of the
whole are those of the parts, one after the other.
-/

namespace Bracketed

/-! ## Characters -/

namespace Utf8

/-- What has begun is a character of several bytes, of which a line feed is none. -/
def Proper (begun : Option Begun) : Prop :=
  ∀ character ∈ begun, 0x80 ≤ character.low

theorem proper_none : Proper none := by
  intro character hmem
  cases hmem

theorem proper_some {character : Begun} (h : 0x80 ≤ character.low) : Proper (some character) := by
  intro other hmem
  cases hmem
  exact h

theorem proper_first (byte : Nat) : Proper (first byte).2 := by
  unfold first
  repeat' split
  all_goals first
    | exact proper_none
    | exact proper_some (by simp)

theorem proper_step (begun : Option Begun) (byte : Nat) : Proper (step begun byte).2 := by
  cases begun with
  | none => exact proper_first byte
  | some character =>
      obtain ⟨owed, value, low, high⟩ := character
      unfold step
      dsimp only
      split
      · split
        · exact proper_none
        · exact proper_some (Nat.le_refl _)
      · exact proper_first byte

theorem proper_scan {begun : Option Begun} (h : Proper begun) (bytes : List UInt8) :
    Proper (scan begun bytes).2 := by
  induction bytes generalizing begun with
  | nil => exact h
  | cons byte rest ih => exact ih (proper_step begun byte.toNat)

/-- A line feed cuts short what has begun, and begins nothing. -/
theorem scan_lineFeed {begun : Option Begun} (h : Proper begun) :
    scan begun [10] = (finish begun ++ ['\n'], none) := by
  cases begun with
  | none => rfl
  | some character =>
      obtain ⟨owed, value, low, high⟩ := character
      have hlow : ¬ (low ≤ 10 ∧ 10 ≤ high) := by
        have : 0x80 ≤ low := h _ rfl
        omega
      change ((step _ 10).1 ++ [], (step _ 10).2) = _
      rw [step, if_neg hlow]
      rfl

/-- What follows a line feed is decoded as if nothing stood before it. -/
theorem decode_append (first second : List UInt8) :
    decode (first ++ 10 :: second) = decode first ++ '\n' :: decode second := by
  have hfeed := scan_lineFeed (proper_scan proper_none first)
  have hsecond : scan (scan none first).2 (10 :: second) =
      (finish (scan none first).2 ++ '\n' :: (scan none second).1, (scan none second).2) := by
    rw [← List.singleton_append, scan_append, hfeed, List.append_assoc]
    rfl
  rw [decode, scan_append, hsecond, decode, decode]
  simp

end Utf8

/-! ## Lines -/

namespace Text

theorem foldLineEnds_return {rest : Text} (h : rest.head? ≠ some '\n') :
    foldLineEnds ('\r' :: rest) = '\n' :: foldLineEnds rest := by
  rw [foldLineEnds]
  rintro more rfl
  exact h rfl

theorem foldLineEnds_cons {c : Char} (h : c ≠ '\r') (rest : Text) :
    foldLineEnds (c :: rest) = c :: foldLineEnds rest := by
  rw [foldLineEnds]
  · rintro more rfl
    exact absurd rfl h
  · exact h

/-- A line feed ends a line, alone or behind a carriage return, and what follows it is
folded on its own. -/
theorem exists_foldLineEnds_append (first : Text) :
    ∃ before, ∀ second, foldLineEnds (first ++ '\n' :: second) =
      before ++ '\n' :: foldLineEnds second := by
  induction first using foldLineEnds.induct with
  | case1 => exact ⟨[], fun second => foldLineEnds_cons (by decide) second⟩
  | case2 rest ih =>
      obtain ⟨before, hbefore⟩ := ih
      refine ⟨'\n' :: before, fun second => ?_⟩
      rw [List.cons_append, List.cons_append, foldLineEnds, hbefore]
      rfl
  | case3 rest hrest ih =>
      cases rest with
      | nil => exact ⟨[], fun second => by rw [List.singleton_append, foldLineEnds]; rfl⟩
      | cons c more =>
          obtain ⟨before, hbefore⟩ := ih
          refine ⟨'\n' :: before, fun second => ?_⟩
          have hhead : (c :: more ++ '\n' :: second).head? ≠ some '\n' := by
            intro hhead
            cases hhead
            exact hrest more rfl
          rw [List.cons_append, foldLineEnds_return hhead, hbefore]
          rfl
  | case4 c rest hreturn hc ih =>
      obtain ⟨before, hbefore⟩ := ih
      refine ⟨c :: before, fun second => ?_⟩
      rw [List.cons_append, foldLineEnds_cons hc, hbefore]
      rfl

theorem lines_concat_ne_nil (text : Text) : lines (text ++ ['\n']) ≠ [] := by
  intro hnil
  have hflatten := flatten_lines (text ++ ['\n'])
  rw [hnil] at hflatten
  simp at hflatten

theorem lines_append (first second : Text) :
    lines (first ++ '\n' :: second) = lines (first ++ ['\n']) ++ lines second := by
  induction first with
  | nil => simp [lines]
  | cons c rest ih =>
      by_cases hc : c = '\n'
      · simp only [List.cons_append, lines, if_pos hc, ih]
      · simp only [List.cons_append, lines, if_neg hc, ih]
        cases hrest : lines (rest ++ ['\n']) with
        | nil => exact absurd hrest (lines_concat_ne_nil rest)
        | cons line more => rfl

end Text

/-! ## Files -/

namespace Cli

/-- Bytes that may be followed by more without a trace. -/
def Cut (bytes : List UInt8) : Prop :=
  bytes = [] ∨ bytes.getLast? = some 10

instance (bytes : List UInt8) : Decidable (Cut bytes) :=
  inferInstanceAs (Decidable (_ ∨ _))

theorem exists_linesOfBytes_append (first : List UInt8) :
    ∃ lines, ∀ second, linesOfBytes (first ++ 10 :: second) = lines ++ linesOfBytes second := by
  obtain ⟨before, hbefore⟩ := Text.exists_foldLineEnds_append (Utf8.decode first)
  refine ⟨Text.lines (before ++ ['\n']), fun second => ?_⟩
  rw [linesOfBytes, Utf8.decode_append, hbefore, Text.lines_append]
  rfl

theorem linesOfBytes_append {first : List UInt8} (h : Cut first) (second : List UInt8) :
    linesOfBytes (first ++ second) = linesOfBytes first ++ linesOfBytes second := by
  rcases h with rfl | hlast
  · rfl
  · obtain ⟨init, rfl⟩ := List.getLast?_eq_some_iff.1 hlast
    obtain ⟨lines, hlines⟩ := exists_linesOfBytes_append init
    have hfirst : linesOfBytes (init ++ [10]) = lines := (hlines []).trans (List.append_nil lines)
    rw [List.append_assoc, List.singleton_append, hlines, hfirst]

/-- The lines of bytes cut behind line feeds are those of the parts. -/
theorem linesOfBytes_flatten {contents : List (List UInt8)}
    (h : ∀ content ∈ contents.dropLast, Cut content) :
    linesOfBytes contents.flatten = contents.flatMap linesOfBytes := by
  induction contents with
  | nil => rfl
  | cons content rest ih =>
      cases rest with
      | nil => simp
      | cons next more =>
          have hcontent : Cut content := h content (by simp)
          have hrest := ih fun other hmem => h other (by simp [hmem])
          rw [List.flatten_cons, linesOfBytes_append hcontent, hrest]
          rfl

end Cli

end Bracketed
