import Bracketed.Cli.Options
import Bracketed.Cli.Files

/-!
# Operands

Words that ask for something else than files, such as a width, may be followed by the names
of files.  A name that does not begin with a hyphen, or is nothing but one, is an operand
wherever it stands, and all operands at the end are files, in order.
-/

namespace Bracketed

namespace Cli

/-- Words that are operands wherever they stand. -/
def IsOperand (word : Text) : Prop :=
  word = standardInput ∨ word.head? ≠ some '-'

instance (word : Text) : Decidable (IsOperand word) :=
  inferInstanceAs (Decidable (_ ∨ _))

variable {asked paths : List Text}

/-- What comes to a value does so in each of its steps. -/
theorem exists_of_bind_eq_ok {ε α β : Type} {first : Except ε α} {next : α → Except ε β} {value : β}
    (h : first >>= next = .ok value) : ∃ middle, first = .ok middle ∧ next middle = .ok value := by
  cases first with
  | error fault => cases h
  | ok middle => exact ⟨middle, rfl, h⟩

theorem bind_of_eq_ok {ε α β : Type} {first : Except ε α} {value : α} (h : first = .ok value)
    (next : α → Except ε β) : first >>= next = next value := by
  rw [h]
  rfl

/-! ## Classes -/

namespace Word

theorem classify_of_isOperand {word : Text} (h : IsOperand word) :
    classify word = .ok (.operand word) := by
  have hword : word.head? ≠ some '-' ∨ word.length = 1 := by
    rcases h with rfl | hhead
    · exact .inr rfl
    · exact .inl hhead
  rw [classify, if_pos hword]

theorem ne_divider_of_isOperand {word : Text} (h : IsOperand word) : word ≠ Cli.divider := by
  rintro rfl
  exact absurd h (by decide)

theorem classifyAll_operands (h : ∀ path ∈ paths, IsOperand path) :
    classifyAll paths = .ok (paths.map .operand) := by
  induction paths with
  | nil => rfl
  | cons path rest ih =>
      have hpath := h path List.mem_cons_self
      have hrest := ih fun path hmem => h path (List.mem_cons_of_mem _ hmem)
      rw [classifyAll, if_neg (ne_divider_of_isOperand hpath), classify_of_isOperand hpath, hrest]
      rfl

theorem classifyAll_append {classified : List Word} (h : classifyAll asked = .ok classified)
    (hpaths : ∀ path ∈ paths, IsOperand path) :
    classifyAll (asked ++ paths) = .ok (classified ++ paths.map .operand) := by
  induction asked generalizing classified with
  | nil =>
      cases h
      exact classifyAll_operands hpaths
  | cons word rest ih =>
      rw [classifyAll] at h
      rw [List.cons_append, classifyAll]
      split
      · next hdivider =>
          rw [if_pos hdivider] at h
          cases h
          simp
      · next hdivider =>
          rw [if_neg hdivider] at h
          obtain ⟨first, hfirst, h⟩ := exists_of_bind_eq_ok h
          obtain ⟨more, hmore, h⟩ := exists_of_bind_eq_ok h
          cases h
          rw [hfirst, ih hmore]
          rfl

/-- Behind a divider there are operands only. -/
def Divided : List Word → Prop
  | [] => True
  | .divider :: rest => ∀ word ∈ rest, ∃ text, word = .operand text
  | _ :: rest => Divided rest

theorem divided_operands {words : List Word} (h : ∀ word ∈ words, ∃ text, word = .operand text) :
    Divided words := by
  induction words with
  | nil => exact trivial
  | cons word rest ih =>
      obtain ⟨text, rfl⟩ := h word List.mem_cons_self
      exact ih fun word hmem => h word (List.mem_cons_of_mem _ hmem)

/-- A word that is not the divider is not classified as one. -/
theorem classify_ne_divider {word : Text} {first : Word} (h : classify word = .ok first) :
    first ≠ .divider := by
  rintro rfl
  unfold classify at h
  repeat' split at h
  all_goals cases h

theorem divided_classifyAll {classified : List Word} (h : classifyAll asked = .ok classified) :
    Divided classified := by
  induction asked generalizing classified with
  | nil =>
      cases h
      exact trivial
  | cons word rest ih =>
      rw [classifyAll] at h
      split at h
      · cases h
        intro word hmem
        obtain ⟨text, -, rfl⟩ := List.mem_map.1 hmem
        exact ⟨text, rfl⟩
      · obtain ⟨first, hfirst, h⟩ := exists_of_bind_eq_ok h
        obtain ⟨more, hmore, h⟩ := exists_of_bind_eq_ok h
        cases h
        have hrest := ih hmore
        cases first with
        | divider => exact absurd rfl (classify_ne_divider hfirst)
        | operand text => exact hrest
        | switch option long value => exact hrest
        | unknown text => exact hrest

end Word

/-! ## Effects -/

namespace Collected

variable {collected next final : Collected}

/-- What is collected differs in what is asked for, but not in the files. -/
structure Alongside (collected next : Collected) : Prop where
  files_eq : next.options.files = collected.options.files
  stage_eq : next.stage = collected.stage

theorem alongside_addFlags {flags : List Flag} (h : collected.addFlags flags = .ok next) :
    collected.Alongside next := by
  induction flags generalizing collected with
  | nil =>
      cases h
      exact ⟨rfl, rfl⟩
  | cons flag rest ih =>
      cases flag with
      | help => cases h
      | verbose =>
          have hrest := ih h
          exact ⟨hrest.files_eq, hrest.stage_eq⟩
      | version =>
          have hrest := ih h
          exact ⟨hrest.files_eq, hrest.stage_eq⟩

theorem alongside_addWidth {given : Text} (h : collected.addWidth given = .ok next) :
    collected.Alongside next := by
  unfold addWidth at h
  split at h
  · cases h
    exact ⟨rfl, rfl⟩
  · split at h
    · cases h
      exact ⟨rfl, rfl⟩
    · cases h

section Switches

variable {option : Switch} {long : Bool} {value : Option Text} {flags : List Flag} {given : Text}

theorem addAll_flags (h : option.bundle long value = .ok ⟨flags, none⟩) (rest : List Word) :
    collected.addAll (.switch option long value :: rest) =
      collected.endOperands.addFlags flags >>= fun next => next.addAll rest := by
  rw [addAll, h]

/-- A number in the word of its option. -/
theorem addAll_given (h : option.bundle long value = .ok ⟨flags, some (some given)⟩)
    (rest : List Word) :
    collected.addAll (.switch option long value :: rest) =
      collected.endOperands.addFlags flags >>= fun first =>
        first.addWidth given >>= fun next => next.addAll rest := by
  rw [addAll, h]

/-- A number in the word behind its option. -/
theorem addAll_behind (h : option.bundle long value = .ok ⟨flags, some none⟩) (rest : List Word) :
    collected.addAll (.switch option long value :: .operand given :: rest) =
      collected.endOperands.addFlags flags >>= fun first =>
        first.addWidth given >>= fun next => next.addAll rest := by
  rw [addAll, h]

end Switches

/-- More words take effect behind the others. -/
theorem addAll_append {words : List Word} (h : collected.addAll words = .ok final)
    (more : List Word) : collected.addAll (words ++ more) = final.addAll more := by
  fun_induction addAll collected words with
  | case1 collected =>
      cases h
      rfl
  | case2 collected word rest ih => exact ih h
  | case3 collected rest ih => exact ih h
  | case4 collected word rest ih => exact ih h
  | case5 collected option long value rest error hbundle => cases h
  | case6 collected option long value rest flags hbundle ih =>
      obtain ⟨first, hflags, hrest⟩ := exists_of_bind_eq_ok h
      rw [List.cons_append, addAll_flags hbundle, bind_of_eq_ok hflags]
      exact ih first hrest
  | case7 collected option long value rest flags given hbundle ih =>
      obtain ⟨first, hflags, h⟩ := exists_of_bind_eq_ok h
      obtain ⟨second, hwidth, hrest⟩ := exists_of_bind_eq_ok h
      rw [List.cons_append, addAll_given hbundle, bind_of_eq_ok hflags, bind_of_eq_ok hwidth]
      exact ih second hrest
  | case8 collected option long value flags hbundle given rest ih =>
      obtain ⟨first, hflags, h⟩ := exists_of_bind_eq_ok h
      obtain ⟨second, hwidth, hrest⟩ := exists_of_bind_eq_ok h
      rw [List.cons_append, List.cons_append, addAll_behind hbundle, bind_of_eq_ok hflags,
        bind_of_eq_ok hwidth]
      exact ih second hrest
  | case9 collected option long value rest flags hbundle hrest => cases h

/-- As long as there are no files, no option can come behind an operand. -/
def Settled (collected : Collected) (words : List Word) : Prop :=
  collected.options.files = [] →
    collected.stage = .before ∨
      (collected.stage = .inside ∧ ∀ word ∈ words, ∃ text, word = .operand text)

/-- So a word that is no operand finds none before it. -/
theorem Settled.endOperands {word : Word} {words : List Word}
    (h : Settled collected (word :: words)) (hword : ∀ text, word ≠ .operand text)
    (hfiles : collected.options.files = []) : collected.endOperands.stage = .before := by
  rcases h hfiles with hbefore | ⟨-, hoperands⟩
  · simp [Collected.endOperands, hbefore]
  · obtain ⟨text, htext⟩ := hoperands word List.mem_cons_self
    exact absurd htext (hword text)

theorem files_endOperands (collected : Collected) :
    collected.endOperands.options.files = collected.options.files := by
  unfold Collected.endOperands
  split <;> rfl

theorem Settled.addOperand {word : Text} {words : List Word}
    (h : Settled collected (.operand word :: words)) :
    Settled (collected.addOperand word) words := by
  intro hfiles
  unfold Collected.addOperand at hfiles
  split at hfiles
  · next hbehind =>
      rcases h hfiles with hbefore | ⟨hinside, -⟩
      · cases hbehind.symm.trans hbefore
      · cases hbehind.symm.trans hinside
  · simp at hfiles

theorem Settled.addDivider {words : List Word} (h : Settled collected (.divider :: words))
    (hwords : ∀ word ∈ words, ∃ text, word = .operand text) :
    Settled collected.addDivider words := by
  intro hfiles
  unfold Collected.addDivider at hfiles ⊢
  split at hfiles
  · next hbehind =>
      rcases h hfiles with hbefore | ⟨hinside, -⟩
      · cases hbehind.symm.trans hbefore
      · cases hbehind.symm.trans hinside
  · exact .inr ⟨rfl, hwords⟩

/-- An option leaves the files, and no operand before it, as they are. -/
theorem Settled.addSwitch {option : Switch} {long : Bool} {value : Option Text}
    {words rest : List Word} (h : Settled collected (.switch option long value :: words))
    (hnext : collected.endOperands.Alongside next) : Settled next rest := by
  intro hfiles
  left
  rw [hnext.files_eq, files_endOperands] at hfiles
  exact hnext.stage_eq.trans (h.endOperands (fun _ => Word.noConfusion) hfiles)

theorem Alongside.trans {first second third : Collected} (h : first.Alongside second)
    (h' : second.Alongside third) : first.Alongside third :=
  ⟨h'.files_eq.trans h.files_eq, h'.stage_eq.trans h.stage_eq⟩

theorem settled_addAll {words : List Word} (h : collected.addAll words = .ok final)
    (hsettled : Settled collected words) (hdivided : Word.Divided words) : Settled final [] := by
  fun_induction addAll collected words with
  | case1 collected =>
      cases h
      exact hsettled
  | case2 collected word rest ih => exact ih h hsettled.addOperand hdivided
  | case3 collected rest ih =>
      exact ih h (hsettled.addDivider hdivided) (Word.divided_operands hdivided)
  | case4 collected word rest ih =>
      refine ih h ?_ hdivided
      intro hfiles
      rw [addUnknown, files_endOperands] at hfiles
      exact .inl (hsettled.endOperands (fun _ => Word.noConfusion) hfiles)
  | case5 collected option long value rest error hbundle => cases h
  | case6 collected option long value rest flags hbundle ih =>
      obtain ⟨first, hflags, hrest⟩ := exists_of_bind_eq_ok h
      exact ih first hrest (hsettled.addSwitch (alongside_addFlags hflags)) hdivided
  | case7 collected option long value rest flags given hbundle ih =>
      obtain ⟨first, hflags, h⟩ := exists_of_bind_eq_ok h
      obtain ⟨second, hwidth, hrest⟩ := exists_of_bind_eq_ok h
      have hsecond := (alongside_addFlags hflags).trans (alongside_addWidth hwidth)
      exact ih second hrest (hsettled.addSwitch hsecond) hdivided
  | case8 collected option long value flags hbundle given rest ih =>
      obtain ⟨first, hflags, h⟩ := exists_of_bind_eq_ok h
      obtain ⟨second, hwidth, hrest⟩ := exists_of_bind_eq_ok h
      have hsecond := (alongside_addFlags hflags).trans (alongside_addWidth hwidth)
      exact ih second hrest (hsettled.addSwitch hsecond) hdivided
  | case9 collected option long value rest flags hbundle hrest => cases h

/-- Operands are files, unless an option came behind others before them. -/
theorem addAll_operands (h : collected.stage ≠ .behind) (paths : List Text) :
    ∃ next, collected.addAll (paths.map .operand) = .ok next ∧
      next.options =
        { collected.options with files := collected.options.files ++ paths } ∧
      next.leftovers = collected.leftovers := by
  induction paths generalizing collected with
  | nil => exact ⟨collected, rfl, by simp, rfl⟩
  | cons path rest ih =>
      have hadded : collected.addOperand path =
          ⟨{ collected.options with files := collected.options.files ++ [path] }, .inside,
            collected.leftovers⟩ := by
        unfold addOperand
        split
        · next hbehind => exact absurd hbehind h
        · rfl
      have hinside : (collected.addOperand path).stage ≠ .behind := by
        rw [hadded]
        exact Stage.noConfusion
      obtain ⟨next, hnext, hoptions, hleftovers⟩ := ih hinside
      rw [hadded] at hoptions hleftovers
      refine ⟨next, hnext, ?_, hleftovers⟩
      rw [hoptions]
      simp

end Collected

/-- Operands at the end of words that name no files are the files, in order. -/
theorem Options.read_append {width : Option Width} {verbose version : Bool}
    (h : Options.read asked = .ok ⟨[], width, verbose, version⟩)
    (hpaths : ∀ path ∈ paths, IsOperand path) :
    Options.read (asked ++ paths) = .ok ⟨paths, width, verbose, version⟩ := by
  unfold Options.read at h
  cases hclassified : Word.classifyAll asked with
  | error error =>
      rw [hclassified] at h
      cases h
  | ok classified =>
      rw [hclassified] at h
      obtain ⟨final, hfinal, h⟩ := exists_of_bind_eq_ok h
      split at h
      · next hleftovers =>
          have hoptions : final.options = ⟨[], width, verbose, version⟩ := Except.ok.inj h
          have hsettled := Collected.settled_addAll hfinal
            (fun _ => .inl rfl) (Word.divided_classifyAll hclassified)
          have hstage : final.stage ≠ .behind := by
            intro hbehind
            rcases hsettled (by rw [hoptions]) with hbefore | ⟨hinside, -⟩
            · cases hbehind.symm.trans hbefore
            · cases hbehind.symm.trans hinside
          obtain ⟨next, hnext, hfiles, hnone⟩ := Collected.addAll_operands hstage paths
          unfold Options.read
          rw [Word.classifyAll_append hclassified hpaths]
          dsimp only
          rw [bind_of_eq_ok ((Collected.addAll_append hfinal _).trans hnext), hnone,
            if_pos hleftovers, hfiles, hoptions]
          rfl
      · cases h

end Cli

/-! ## Widths -/

theorem Numeral.exists_trim_minus (body : Text) : ∃ rest, trim ('-' :: body) = '-' :: rest := by
  have hminus : isPadding '-' = false := by decide
  rw [trim, List.dropWhile_cons_of_neg (by simp [hminus]), List.reverse_cons, List.dropWhile_append]
  split
  · exact ⟨[], by simp [hminus]⟩
  · exact ⟨_, List.reverse_append⟩

/-- A numeral behind a minus is not positive. -/
theorem Numeral.read?_nonpos {text body : Text} {count : Int} (h : trim text = '-' :: body)
    (hread : read? text = some count) : count ≤ 0 := by
  unfold read? at hread
  rw [h] at hread
  cases hbody : unsigned? body with
  | none => simp [hbody] at hread
  | some n =>
      simp only [hbody, Option.pure_def, Option.bind_eq_bind, Option.bind_some,
        Option.map_some, Option.some.injEq] at hread
      omega

/-- A text that reads as a width is an operand, for no minus stands in front of it. -/
theorem Width.isOperand_of_read {given : Text} {count : Int} (h : read given = .ok count) :
    Cli.IsOperand given := by
  right
  intro hhead
  obtain ⟨body, rfl⟩ := List.head?_eq_some_iff.1 hhead
  obtain ⟨rest, htrim⟩ := Numeral.exists_trim_minus body
  unfold read at h
  split at h
  · cases h
  · next number hnumber =>
      rw [if_pos (Numeral.read?_nonpos htrim hnumber)] at h
      cases h

/-- A width alone may be asked for. -/
theorem Cli.Options.read_width {given : Text} {count : Int} (h : Width.read given = .ok count) :
    Options.read ["-w".toList, given] = .ok ⟨[], some (.columns count), false, false⟩ := by
  have hoperand := Width.isOperand_of_read h
  have hclassified : Word.classifyAll ["-w".toList, given] =
      .ok [.switch .width false none, .operand given] := by
    rw [Word.classifyAll, if_neg (by decide), Word.classifyAll,
      if_neg (Word.ne_divider_of_isOperand hoperand), Word.classify_of_isOperand hoperand]
    rfl
  have hadded : Collected.start.addWidth given =
      .ok ⟨⟨[], some (.columns count), false, false⟩, .before, []⟩ := by
    rw [Collected.addWidth, if_neg (Word.ne_divider_of_isOperand hoperand), h]
    rfl
  have hall : Collected.start.addAll [.switch .width false none, .operand given] =
      .ok ⟨⟨[], some (.columns count), false, false⟩, .before, []⟩ := by
    have hflags : Collected.start.endOperands.addFlags [] = .ok Collected.start := rfl
    rw [Collected.addAll_behind rfl, bind_of_eq_ok hflags, bind_of_eq_ok hadded]
    rfl
  rw [Options.read, hclassified]
  exact bind_of_eq_ok hall _

end Bracketed
