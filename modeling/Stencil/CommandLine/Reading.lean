import Stencil.CommandLine.Grammar

/-!
# Reading a command line

The words are read from left to right. Words without a dash lead to a level below or are the operand
of the option before them; an operand that stands in a word of its own is judged only when the next
option is taken, so that a word that cannot be read is reported first.

* `Reading.ofWords`: the level that the words lead to, with its options.
* `give_eq_ok_iff`: an option is taken once, and a path only if it is not empty.
-/

namespace Stencil.CommandLine

/-- Why the words are no command. -/
inductive Refusal where
  | missingRequiredArgument
  | unknownArgument
  | invalidSubcommand
  | invalidValue
  | argumentConflict
  | tooManyValues
  | missingSubcommand
  /-- No words at all where a command is to be named. -/
  | nothingGiven
  | helpAsked
  | versionAsked
  deriving DecidableEq, Repr

/-- A level with the options read there. -/
structure Reading where
  level : Level
  /-- The options with their operands, the last one first. -/
  given : List (Key × Text)
  /-- An option whose operand is in a word of its own, and the operand once it is read. -/
  pending : Option (Key × Option Text)
  /-- Whether the levels before asked for progress records. -/
  verbose : Bool
  deriving DecidableEq, Repr

namespace Reading

/-- The start of a level. -/
def start (level : Level) (verbose : Bool) : Reading := ⟨level, [], none, verbose⟩

/-- Whether the option was given at this level. -/
def has (reading : Reading) (key : Key) : Bool := (reading.given.lookup key).isSome

/-- The reading with one more option, which may be given once. -/
def give (reading : Reading) (key : Key) (operand : Text) : Except Refusal Reading :=
  if reading.has key then .error .argumentConflict
  else if key.operand = .path ∧ operand = [] then .error .invalidValue
  else .ok { reading with given := (key, operand) :: reading.given }

/-- The reading with the pending option given. -/
def settle (reading : Reading) : Except Refusal Reading :=
  match reading.pending with
  | none => .ok reading
  | some (_, none) => .error .invalidValue
  | some (key, some operand) => { reading with pending := none }.give key operand

/-- Takes an option without an operand. -/
def takeFlag (reading : Reading) (key : Key) : Except Refusal Reading := do
  let reading ← reading.settle
  match key with
  | .help => throw .helpAsked
  | .version => throw .versionAsked
  | key => reading.give key []

/-- Takes an option with its operand. -/
def takeOperand (reading : Reading) (key : Key) (operand : Text) : Except Refusal Reading := do
  (← reading.settle).give key operand

/-- Takes an option whose operand is the next word. -/
def await (reading : Reading) (key : Key) : Except Refusal Reading := do
  return { ← reading.settle with pending := some (key, none) }

/-- Reads an option by its long name, which an equals sign and an operand may follow. -/
def takeLong (reading : Reading) (body : Text) : Except Refusal Reading :=
  let (name, operand?) : Text × Option Text :=
    match Text.cutAt? '=' body with
    | some (name, operand) => (name, some operand)
    | none => (body, none)
  match reading.level.optionNamed? name with
  | none => .error .unknownArgument
  | some key =>
    match key.operand, operand? with
    | .nothing, none => reading.takeFlag key
    | .nothing, some _ => .error .tooManyValues
    | _, some operand => reading.takeOperand key operand
    | _, none => reading.await key

/-- The operand that follows a letter in its word. An equals sign before it does not count. -/
def operandAfterLetter : Text → Text
  | '=' :: rest => rest
  | rest => rest

/-- Reads the options of a word of letters. -/
def takeLetters (reading : Reading) : Text → Except Refusal Reading
  | [] => .ok reading
  | letter :: rest =>
    match reading.level.optionLettered? letter with
    | none => .error .unknownArgument
    | some key =>
      if key.operand = .nothing then do
        let reading ← reading.takeFlag key
        reading.takeLetters rest
      else if rest.isEmpty then reading.await key
      else reading.takeOperand key (operandAfterLetter rest)

/-- Why a word that is neither an option nor an operand is refused. -/
def strayWord (level : Level) : Refusal :=
  if level.needsCommand then .invalidSubcommand else .unknownArgument

/-- Why the words after the word that ends the options are refused. -/
def afterOptions (reading : Reading) : List Text → Except Refusal Reading
  | [] => .ok reading
  | word :: _ =>
    if reading.level.leadsOn word then .error .unknownArgument
    else .error (strayWord reading.level)

/-- The answer to a request for help about the level that the words lead to. -/
def helpAbout (level : Level) : List Text → Refusal
  | [] => .helpAsked
  | word :: words =>
    match level.sub? word with
    | some next => helpAbout next words
    | none =>
      -- The word for help leads on too, but to nothing below it.
      if level.leadsOn word ∧ words = [] then .helpAsked else .invalidSubcommand

/-- The reading after one word that is an option or an operand. -/
def takeWord (reading : Reading) (word : Text) : Except Refusal Reading :=
  match word with
  | '-' :: '-' :: body => reading.takeLong body
  | '-' :: letter :: letters => reading.takeLetters (letter :: letters)
  | word =>
    match reading.pending with
    | some (key, none) => .ok { reading with pending := some (key, some word) }
    | _ => .error (strayWord reading.level)

/-- Whether the next word is the operand of the option before it, unless it is an option. -/
def awaits (reading : Reading) : Bool :=
  match reading.pending with
  | some (_, none) => true
  | _ => false

/-- Reads the words from a level on. -/
def read (reading : Reading) : List Text → Except Refusal Reading
  | [] => reading.settle
  | word :: words =>
    if reading.level.leadsOn word && !reading.awaits then
      match reading.level.sub? word with
      | some next => (start next (reading.verbose || reading.has .verbose)).read words
      | none => .error (helpAbout reading.level words)
    else if word = ['-', '-'] then do
      (← reading.afterOptions words).settle
    else do
      (← reading.takeWord word).read words

/-- The reading of all words. -/
def ofWords (words : List Text) : Except Refusal Reading := (start .top false).read words

theorem give_eq_ok_iff {reading after : Reading} {key : Key} {operand : Text} :
    reading.give key operand = .ok after ↔
      reading.has key = false ∧ (key.operand = .path → operand ≠ []) ∧
        after = { reading with given := (key, operand) :: reading.given } := by
  unfold give
  split
  · next h => simp [h]
  · next h =>
    split
    · next hp => simp [hp.1, hp.2]
    · next hp =>
      rw [not_and] at hp
      simp only [Except.ok.injEq, eq_comm (a := after)]
      exact ⟨fun ha => ⟨by simpa using h, hp, ha⟩, fun ha => ha.2.2⟩

end Reading

end Stencil.CommandLine
