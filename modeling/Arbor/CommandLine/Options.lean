/-! # Options

Words of a command line are read from left to right. Options come as `--name`,
`--name=value`, `-n` and `-nvalue`, and letters of options without a value may be put
together; `--` ends them. The first thing that is wrong is told, and a wish for help
counts only if nothing before it is wrong.
-/

namespace Arbor.CommandLine

inductive Misuse where
  | unknownOption (word : String)
  | repeated (option : String)
  | missingValue (option : String)
  | unwantedValue (option : String)
  | badValue (option value : String)
  | unexpected (word : String)
  | missingCommand
  | unknownCommand (word : String)
  deriving DecidableEq, Repr

/-- Why a command line is not obeyed. -/
inductive Refusal where
  /-- Help is asked for. -/
  | help
  | misuse (cause : Misuse)
  deriving DecidableEq, Repr

inductive Effect (σ : Type) where
  | help
  | switch (set : σ → σ)
  /-- Takes a value, which is refused or put into the settings. -/
  | value (set : String → σ → Option σ)
  /-- Takes a value that may be a negative number. -/
  | number (set : String → σ → Option σ)

structure Opt (σ : Type) where
  name : String
  letter : Option Char
  effect : Effect σ

/-- The option that every command has. -/
def Opt.help {σ : Type} : Opt σ := ⟨"help", some 'h', .help⟩

/-- The settings so far, and the names of the options that made them. -/
structure Progress (σ : Type) where
  settings : σ
  used : List String

variable {σ : Type}

def refuse {α : Type} (m : Misuse) : Except Refusal α := .error (.misuse m)

/-- Notes the use of an option, which may be used once only. -/
def Progress.use (p : Progress σ) (o : Opt σ) (settings : σ) : Except Refusal (Progress σ) :=
  if p.used.contains o.name then refuse (.repeated o.name) else .ok ⟨settings, o.name :: p.used⟩

def Progress.give (p : Progress σ) (o : Opt σ) (value : String) : Except Refusal (Progress σ) :=
  match o.effect with
  | .value set | .number set =>
    match set value p.settings with
    | some settings => p.use o settings
    | none => refuse (.badValue o.name value)
  | _ => refuse (.unwantedValue o.name)

/-- Progress after a word, which may leave an option without its value. -/
inductive Step (σ : Type) where
  | done (p : Progress σ)
  | wanting (o : Opt σ) (p : Progress σ)

def readLong (opts : List (Opt σ)) (p : Progress σ) (word : List Char) :
    Except Refusal (Step σ) := do
  let name := String.ofList (word.takeWhile (· ≠ '='))
  let some o := opts.find? (·.name == name) | refuse (.unknownOption name)
  match word.dropWhile (· ≠ '='), o.effect with
  | _ :: value, _ => return .done (← p.give o (String.ofList value))
  | [], .help => throw .help
  | [], .switch set => return .done (← p.use o (set p.settings))
  | [], _ => return .wanting o p

def readLetters (opts : List (Opt σ)) (p : Progress σ) : List Char → Except Refusal (Step σ)
  | [] => return .done p
  | c :: rest => do
    let some o := opts.find? (·.letter == some c) | refuse (.unknownOption c.toString)
    match o.effect with
    | .help => throw .help
    | .switch set => readLetters opts (← p.use o (set p.settings)) rest
    | _ =>
      match rest with
      | [] => return .wanting o p
      | '=' :: value | value => return .done (← p.give o (String.ofList value))

def isOption (word : String) : Bool :=
  match word.toList with
  | '-' :: _ :: _ => true
  | _ => false

/-- Whether digits, with a point and an exponent at most, follow a minus sign. -/
def isNegativeNumber (word : String) : Bool :=
  match word.toList with
  | '-' :: s =>
    let mantissa := s.takeWhile fun c => c ≠ 'e' && c ≠ 'E'
    let whole := mantissa.takeWhile Char.isDigit
    let fraction := match mantissa.dropWhile Char.isDigit with
      | [] => true
      | c :: ds => c = '.' && !whole.isEmpty && ds.all Char.isDigit
    let exponent := match s.dropWhile fun c => c ≠ 'e' && c ≠ 'E' with
      | [] => true
      | _ :: ds => !ds.isEmpty && ds.all Char.isDigit
    !whole.isEmpty && fraction && exponent
  | _ => false

def Opt.takes (o : Opt σ) (word : String) : Bool :=
  !isOption word ||
    match o.effect with
    | .number _ => isNegativeNumber word
    | _ => false

def readOption (opts : List (Opt σ)) (p : Progress σ) (word : String) :
    Except Refusal (Step σ) :=
  match word.toList with
  | '-' :: '-' :: name => readLong opts p name
  | _ :: letters => readLetters opts p letters
  | [] => return .done p

/-- Reads options up to the first word that is none, and returns the settings with the words
from there on. No words may follow the end of the options. -/
def readOptions (opts : List (Opt σ)) (p : Progress σ) :
    List String → Except Refusal (σ × List String)
  | [] => return (p.settings, [])
  | word :: rest => do
    if word = "--" then
      match rest with
      | [] => return (p.settings, [])
      | next :: _ => refuse (.unexpected next)
    else if isOption word then
      match ← readOption opts p word with
      | .done p => readOptions opts p rest
      | .wanting o p =>
        match rest with
        | [] => refuse (.missingValue o.name)
        | value :: rest =>
          if o.takes value then readOptions opts (← p.give o value) rest
          else refuse (.missingValue o.name)
    else return (p.settings, word :: rest)

def readAll (opts : List (Opt σ)) (settings : σ) (words : List String) : Except Refusal σ := do
  match ← readOptions opts ⟨settings, []⟩ words with
  | (settings, []) => return settings
  | (_, word :: _) => refuse (.unexpected word)

end Arbor.CommandLine
