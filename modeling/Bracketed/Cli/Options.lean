import Bracketed.Width.Choice

/-!
# Options

A command line is a list of words. Every word is classified before any of them
takes effect: operands, options by their full or shortened names, and options
that are unknown. Then the words take effect from left to right. A word of short
options takes effect only when all of it has been understood.

Operands form one run; those behind a later option are left over, and so are
unknown options. Anything left over is an error once all words have been read.
-/

namespace Bracketed.Cli

/-- An option that takes no value. -/
inductive Flag
  | help
  | verbose
  | version
deriving DecidableEq, Repr

/-- An option; only the width takes a value. -/
inductive Switch
  | flag (flag : Flag)
  | width
deriving DecidableEq, Repr

/-- What the words ask for. Without files the standard input is read. -/
structure Options where
  files : List Text
  width : Option Width
  verbose : Bool
  version : Bool
deriving DecidableEq, Repr

inductive UsageError
  | ambiguous (word : Text) (names : List Text)
  | unwantedValue (flag : Flag) (value : Text)
  | missingWidth
  | badWidth (fault : Fault)
  | unrecognized (words : List Text)
deriving DecidableEq, Repr

/-- Why the words lead to no work. -/
inductive Stop
  | help
  | usage (error : UsageError)
deriving DecidableEq, Repr

/-- The word before which options end. -/
def divider : Text := "--".toList

/-- The names of the options, in the order in which they are listed. -/
def names : List (Text × Switch) :=
  [("-h".toList, .flag .help), ("--help".toList, .flag .help),
    ("-w".toList, .width), ("--width".toList, .width),
    ("--verbose".toList, .flag .verbose),
    ("-v".toList, .flag .version), ("--version".toList, .flag .version)]

def Flag.label : Flag → String
  | help => "-h/--help"
  | verbose => "--verbose"
  | version => "-v/--version"

def UsageError.message : UsageError → String
  | ambiguous word names =>
      let listed := String.intercalate ", " (names.map String.ofList)
      s!"ambiguous option: {String.ofList word} could match {listed}"
  | unwantedValue flag value =>
      s!"argument {flag.label}: ignored explicit argument {String.ofList value.literal}"
  | missingWidth => "argument -w/--width: expected one argument"
  | badWidth fault => s!"argument -w/--width: {fault.message}"
  | unrecognized words =>
      let listed := String.intercalate " " (words.map String.ofList)
      s!"unrecognized arguments: {listed}"

/-! ## Classification -/

/-- A classified word. An option keeps whether its name is a long one and the
value written in the same word. -/
inductive Word
  | operand (text : Text)
  | divider
  | switch (switch : Switch) (long : Bool) (value : Option Text)
  | unknown (text : Text)
deriving DecidableEq, Repr

def named? (name : Text) : Option Switch :=
  names.lookup name

/-- The parts of a word before and behind its first equals sign. -/
def splitValue (word : Text) : Text × Option Text :=
  match word.dropWhile (· ≠ '=') with
  | [] => (word, none)
  | _ :: value => (word.takeWhile (· ≠ '='), some value)

def isLong (name : Text) : Bool :=
  divider.isPrefixOf name

/-- The options that a word may shorten, each with its full name and the value in
the same word: long options by the beginning of their name, short ones by their
letter, with the rest of the word as the value. -/
def candidates (word : Text) : List (Text × Switch × Option Text) :=
  if isLong word then
    let (start, value) := splitValue word
    (names.filter fun name => start.isPrefixOf name.1).map fun name => (name.1, name.2, value)
  else
    (names.filter fun name => name.1 = word.take 2).map fun name =>
      (name.1, name.2, some (word.drop 2))

/-- Digits, or digits with a point among or before them, behind a minus sign. A
line feed at the end does not matter. -/
def isNegativeNumber (word : Text) : Bool :=
  match word with
  | '-' :: body =>
      let body := if body.getLast? = some '\n' then body.dropLast else body
      match body.dropWhile Text.isDigit with
      | [] => !body.isEmpty
      | '.' :: decimals => !decimals.isEmpty && decimals.all Text.isDigit
      | _ => false
  | _ => false

/-- The class of a word that is not the divider. -/
def Word.classify (word : Text) : Except UsageError Word :=
  if word.head? ≠ some '-' ∨ word.length = 1 then .ok (.operand word)
  else
    match named? word with
    | some option => .ok (.switch option (isLong word) none)
    | none =>
        let (name, value) := splitValue word
        match named? name, value with
        | some option, some value => .ok (.switch option (isLong name) (some value))
        | _, _ =>
            match candidates word with
            | [(_, option, value)] => .ok (.switch option (isLong word) value)
            | [] =>
                if isNegativeNumber word ∨ ' ' ∈ word then .ok (.operand word)
                else .ok (.unknown word)
            | several => .error (.ambiguous word (several.map (·.1)))

/-- The classes of all words; behind the divider every word is an operand. -/
def Word.classifyAll : List Text → Except UsageError (List Word)
  | [] => .ok []
  | word :: rest =>
      if word = Cli.divider then .ok (.divider :: rest.map .operand)
      else do
        let first ← classify word
        let more ← classifyAll rest
        return first :: more

/-! ## Effect -/

/-- The options of one word: flags, and at the end a width, whose value stands in
the same word or is the next word. -/
structure Bundle where
  flags : List Flag
  width : Option (Option Text)
deriving DecidableEq, Repr

/-- The options of a word that begins with a short one, given the letters behind it. -/
def Switch.unbundle (first : Switch) (letters : Text) : Except UsageError Bundle :=
  match first, letters with
  | width, [] => .ok ⟨[], some none⟩
  | width, c :: rest => .ok ⟨[], some (some (c :: rest))⟩
  | flag first, [] => .ok ⟨[first], none⟩
  | flag first, c :: rest =>
      match named? ['-', c] with
      | none => .error (.unwantedValue first (c :: rest))
      | some next => do
          let bundle ← next.unbundle rest
          return ⟨first :: bundle.flags, bundle.width⟩

/-- The options of a word, given its first one and the value behind it. -/
def Switch.bundle (first : Switch) (long : Bool) (value : Option Text) :
    Except UsageError Bundle :=
  match first, value with
  | width, value => .ok ⟨[], some value⟩
  | flag first, none => .ok ⟨[first], none⟩
  | flag first, some value =>
      if long ∨ value.isEmpty then .error (.unwantedValue first value)
      else (flag first).unbundle value

/-- How far the run of operands has come. -/
inductive Stage
  | before
  | inside
  | behind
deriving DecidableEq, Repr

/-- What the words so far ask for, and those that are left over. -/
structure Collected where
  options : Options
  stage : Stage
  leftovers : List Text
deriving DecidableEq, Repr

namespace Collected

def start : Collected :=
  ⟨⟨[], none, false, false⟩, .before, []⟩

def addOperand (collected : Collected) (word : Text) : Collected :=
  match collected.stage with
  | .behind => { collected with leftovers := collected.leftovers ++ [word] }
  | _ =>
      { collected with
        options := { collected.options with files := collected.options.files ++ [word] }
        stage := .inside }

/-- The divider is part of a run of operands, but names no file. -/
def addDivider (collected : Collected) : Collected :=
  match collected.stage with
  | .behind => { collected with leftovers := collected.leftovers ++ [divider] }
  | _ => { collected with stage := .inside }

/-- An option ends the run of operands. -/
def endOperands (collected : Collected) : Collected :=
  match collected.stage with
  | .inside => { collected with stage := .behind }
  | _ => collected

def addUnknown (collected : Collected) (word : Text) : Collected :=
  let ended := collected.endOperands
  { ended with leftovers := ended.leftovers ++ [word] }

def addFlags (collected : Collected) : List Flag → Except Stop Collected
  | [] => .ok collected
  | .help :: _ => .error .help
  | .verbose :: rest =>
      addFlags { collected with options := { collected.options with verbose := true } } rest
  | .version :: rest =>
      addFlags { collected with options := { collected.options with version := true } } rest

def setWidth (collected : Collected) (width : Width) : Collected :=
  { collected with options := { collected.options with width := some width } }

/-- A divider in the place of a number is dropped, which leaves the width vacant. -/
def addWidth (collected : Collected) (given : Text) : Except Stop Collected :=
  if given = divider then .ok (collected.setWidth .vacant)
  else
    match Width.read given with
    | .ok count => .ok (collected.setWidth (.columns count))
    | .error fault => .error (.usage (.badWidth fault))

/-- The effect of all words, from left to right. -/
def addAll (collected : Collected) : List Word → Except Stop Collected
  | [] => .ok collected
  | .operand word :: rest => (collected.addOperand word).addAll rest
  | .divider :: rest => collected.addDivider.addAll rest
  | .unknown word :: rest => (collected.addUnknown word).addAll rest
  | .switch option long value :: rest =>
      match option.bundle long value with
      | .error error => .error (.usage error)
      | .ok ⟨flags, none⟩ => do
          let collected ← collected.endOperands.addFlags flags
          collected.addAll rest
      | .ok ⟨flags, some (some given)⟩ => do
          let collected ← collected.endOperands.addFlags flags
          let collected ← collected.addWidth given
          collected.addAll rest
      | .ok ⟨flags, some none⟩ =>
          match rest with
          | .operand given :: rest => do
              let collected ← collected.endOperands.addFlags flags
              let collected ← collected.addWidth given
              collected.addAll rest
          | _ => .error (.usage .missingWidth)

end Collected

/-- What a list of words asks for. -/
def Options.read (words : List Text) : Except Stop Options :=
  match Word.classifyAll words with
  | .error error => .error (.usage error)
  | .ok classified => do
      let collected ← Collected.start.addAll classified
      if collected.leftovers.isEmpty then return collected.options
      else .error (.usage (.unrecognized collected.leftovers))

end Bracketed.Cli
