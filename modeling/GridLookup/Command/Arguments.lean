namespace GridLookup

/-!
# Arguments

How a command line is taken apart: options with dashes, words, and what options do with the
arguments after them.

* `ArgumentForm` — what an argument looks like.
* `OptionRule`, `Grammar` — the options and words that a command understands.
* `Grammar.scan` — carries out what the arguments ask for.
-/

/-! ### Faults -/

/-- Why a command line is not understood. -/
inductive UsageFault where
  /-- No option or word can stand here. -/
  | unexpected (argument : String)
  /-- An option lacks its value. -/
  | missingValue (option : String)
  /-- An option that takes no value has one. -/
  | needlessValue (option : String)
  /-- A value is not of the kind that its option takes. -/
  | badValue (option value : String)
  /-- An option stands twice. -/
  | repeated (option : String)
  /-- A required option or word is missing. -/
  | missing (name : String)
  deriving DecidableEq, Repr

/-- The wording of a usage fault. -/
def UsageFault.message : UsageFault → String
  | .unexpected argument => s!"unexpected argument '{argument}'"
  | .missingValue option => s!"no value for '{option}'"
  | .needlessValue option => s!"'{option}' takes no value"
  | .badValue option value => s!"invalid value '{value}' for '{option}'"
  | .repeated option => s!"'{option}' cannot be given twice"
  | .missing name => s!"'{name}' is missing"

/-- Why a command line asks for no work. -/
inductive Stop where
  /-- Help is asked for. -/
  | help
  /-- The version is asked for. -/
  | version
  /-- The command line is not understood. -/
  | misuse (fault : UsageFault)
  deriving DecidableEq, Repr

/-! ### Forms -/

/-- What an argument looks like. -/
inductive ArgumentForm where
  /-- Two dashes, after which there are only words. -/
  | escape
  /-- Two dashes with a name, and a value after an equals sign. -/
  | long (name : String) (value : Option String)
  /-- A dash with letters. -/
  | short (letters : List Char)
  /-- Anything else; a dash alone is a word. -/
  | word
  deriving DecidableEq, Repr

/-- The name and the value of an option that is written with two dashes. -/
def splitLong (text : List Char) : ArgumentForm :=
  let name := String.ofList (text.takeWhile (· != '='))
  match text.dropWhile (· != '=') with
  | _ :: value => .long name (some (String.ofList value))
  | [] => .long name none

/-- What an argument looks like. -/
def ArgumentForm.of (argument : String) : ArgumentForm :=
  match argument.toList with
  | ['-'] => .word
  | ['-', '-'] => .escape
  | '-' :: '-' :: text => splitLong text
  | '-' :: letters => .short letters
  | _ => .word

/-! ### Numbers behind a dash -/

/-- The rest of a number: digits, at most one point, which no exponent precedes, and at most one
    exponent mark, which is not the last character. -/
def isNumberTail (point exponent : Bool) : List Char → Bool
  | [] => true
  | c :: rest =>
    if '0' ≤ c && c ≤ '9' then isNumberTail point exponent rest
    else if c == '.' && !point && !exponent then isNumberTail true exponent rest
    else if c == 'e' && !exponent && !rest.isEmpty then isNumberTail point true rest
    else false

/-- Whether the letters after a dash are those of a negative number. -/
def isNumberBody : List Char → Bool
  | c :: rest => '0' ≤ c && c ≤ '9' && isNumberTail false false rest
  | [] => false

/-! ### Rules -/

/-- Which arguments with a dash an option takes for its value. -/
inductive DashedValues where
  /-- None. -/
  | none
  /-- Negative numbers. -/
  | numbers
  /-- All. -/
  | all
  deriving DecidableEq, Repr

/-- Whether an option takes an argument of this form for its value. -/
def DashedValues.accepts (rule : DashedValues) : ArgumentForm → Bool
  | .word => true
  | .short letters =>
    match rule with
    | .none => false
    | .numbers => isNumberBody letters
    | .all => true
  | _ => rule == .all

/-- What an option does to what has been gathered so far. -/
inductive OptionEffect (σ : Type) where
  /-- It takes no value. -/
  | flag (apply : σ → Except UsageFault σ)
  /-- It takes one value, which stands in the same argument or in the next one. -/
  | value (dashed : DashedValues) (apply : String → σ → Except UsageFault σ)
  /-- It ends the work. -/
  | stop (reason : Stop)

/-- An option: its letter, its name and its effect. -/
structure OptionRule (σ : Type) where
  /-- The letter after a single dash. -/
  letter : Option Char
  /-- The name after two dashes. -/
  name : String
  /-- What it does. -/
  effect : OptionEffect σ

/-- What a command understands. -/
structure Grammar (σ : Type) where
  /-- The options. -/
  options : List (OptionRule σ)
  /-- What a word does; without it the first word ends the scan. -/
  word : Option (String → σ → Except UsageFault σ)

/-- An option that waits for its value. -/
structure Waiting (σ : Type) where
  /-- The name of the option. -/
  name : String
  /-- Which arguments with a dash it takes. -/
  dashed : DashedValues
  /-- What the value does. -/
  apply : String → σ → Except UsageFault σ

/-- What has been gathered, and the option that waits for its value. -/
abbrev Progress (σ : Type) := σ × Option (Waiting σ)

namespace Grammar

variable {σ : Type}

/-- The outcome of an effect. -/
def outcome {α : Type} (result : Except UsageFault α) : Except Stop α := result.mapError .misuse

/-- The option with a name. -/
def named? (grammar : Grammar σ) (name : String) : Option (OptionRule σ) :=
  grammar.options.find? fun rule => rule.name == name

/-- The option with a letter. -/
def lettered? (grammar : Grammar σ) (letter : Char) : Option (OptionRule σ) :=
  grammar.options.find? fun rule => rule.letter == some letter

/-- An option with two dashes. -/
def long (grammar : Grammar σ) (name : String) (value : Option String) (gathered : σ) :
    Except Stop (Progress σ) :=
  match grammar.named? name with
  | none => .error (.misuse (.unexpected name))
  | some rule =>
    match rule.effect, value with
    | .value _ apply, some value => (outcome (apply value gathered)).map fun gathered =>
        (gathered, none)
    | .value dashed apply, none => .ok (gathered, some ⟨name, dashed, apply⟩)
    | _, some _ => .error (.misuse (.needlessValue name))
    | .flag apply, none => (outcome (apply gathered)).map fun gathered => (gathered, none)
    | .stop reason, none => .error reason

/-- Options after a single dash.  The letters after one that takes a value are its value, from
    which an equals sign is dropped. -/
def short (grammar : Grammar σ) : List Char → σ → Except Stop (Progress σ)
  | [], gathered => .ok (gathered, none)
  | letter :: rest, gathered =>
    match grammar.lettered? letter with
    | none => .error (.misuse (.unexpected (String.ofList [letter])))
    | some rule =>
      match rule.effect with
      | .flag apply => do
        let gathered ← outcome (apply gathered)
        grammar.short rest gathered
      | .stop reason => .error reason
      | .value dashed apply =>
        match rest with
        | [] => .ok (gathered, some ⟨rule.name, dashed, apply⟩)
        | '=' :: value => (outcome (apply (String.ofList value) gathered)).map fun gathered =>
            (gathered, none)
        | value => (outcome (apply (String.ofList value) gathered)).map fun gathered =>
            (gathered, none)

/-- A word. -/
def takeWord (grammar : Grammar σ) (argument : String) (gathered : σ) : Except Stop σ :=
  match grammar.word with
  | some apply => outcome (apply argument gathered)
  | none => .error (.misuse (.unexpected argument))

/-- Words up to the end. -/
def takeWords (grammar : Grammar σ) : List String → σ → Except Stop σ
  | [], gathered => .ok gathered
  | argument :: rest, gathered => do
    let gathered ← grammar.takeWord argument gathered
    grammar.takeWords rest gathered

/-- What the arguments gather, and those from the first word on that the grammar has no use
    for. -/
def scan (grammar : Grammar σ) : List String → Progress σ → Except Stop (σ × List String)
  | [], (gathered, none) => .ok (gathered, [])
  | [], (_, some waiting) => .error (.misuse (.missingValue waiting.name))
  | argument :: rest, (gathered, some waiting) =>
    -- The first argument after an option is its value, or the option has none.
    if waiting.dashed.accepts (.of argument) then do
      let gathered ← outcome (waiting.apply argument gathered)
      grammar.scan rest (gathered, none)
    else .error (.misuse (.missingValue waiting.name))
  | argument :: rest, (gathered, none) =>
    match ArgumentForm.of argument with
    | .escape => (grammar.takeWords rest gathered).map fun gathered => (gathered, [])
    | .long name value => do
      let progress ← grammar.long name value gathered
      grammar.scan rest progress
    | .short letters => do
      let progress ← grammar.short letters gathered
      grammar.scan rest progress
    | .word =>
      if grammar.word.isNone then .ok (gathered, argument :: rest)
      else do
        let gathered ← grammar.takeWord argument gathered
        grammar.scan rest (gathered, none)

end Grammar

end GridLookup
