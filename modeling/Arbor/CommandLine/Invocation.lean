import Arbor.CommandLine.Options
import Arbor.Config.Basic
import Arbor.Text.Integer

/-! # Invocations

A command line names the configuration first and then one command with its options.
-/

namespace Arbor.CommandLine

inductive Command where
  /-- Lists the grammars. -/
  | list
  /-- Runs a grammar and prints the report, and on demand the grown word and the events. -/
  | generate (run : Overrides) (symbols events : Bool)
  /-- Runs a grammar and saves a snapshot of the given side length. -/
  | render (run : Overrides) (output : String) (size : Nat)
  /-- Opens the viewer. -/
  | view (seed : Option String)
  deriving Repr

structure Invocation where
  config : String
  command : Command
  deriving Repr

structure NoSettings where
  deriving Repr

structure GenerateSettings where
  run : Overrides := ⟨none, none, none⟩
  symbols : Bool := false
  events : Bool := false

structure RenderSettings where
  run : Overrides := ⟨none, none, none⟩
  output : String := "foliage.png"
  size : Nat := 800

/-- A path, which is not empty. -/
def path? (s : String) : Option String := if s.isEmpty then none else some s

def mainOptions : List (Opt String) :=
  [⟨"config", some 'c', .value fun s _ => path? s⟩, .help]

/-- The options that say what to run, for settings in which `edit` changes that. -/
def runOptions {σ : Type} (edit : (Overrides → Overrides) → σ → σ) : List (Opt σ) :=
  [⟨"grammar", some 'g', .value fun s settings =>
      some (edit (fun run => { run with grammar := some s }) settings)⟩,
    ⟨"iterations", some 'i', .number fun s settings =>
      (Text.integerWithin? (-0x8000000000000000) 0x7fffffffffffffff s).map fun n =>
        edit (fun run => { run with iterations := some n }) settings⟩,
    ⟨"seed", some 's', .value fun s settings =>
      some (edit (fun run => { run with seed := some s }) settings)⟩]

def generateOptions : List (Opt GenerateSettings) :=
  runOptions (fun f settings => { settings with run := f settings.run }) ++
    [⟨"symbols", none, .switch fun settings => { settings with symbols := true }⟩,
      ⟨"events", none, .switch fun settings => { settings with events := true }⟩, .help]

def renderOptions : List (Opt RenderSettings) :=
  runOptions (fun f settings => { settings with run := f settings.run }) ++
    [⟨"output", some 'o', .value fun s settings =>
        (path? s).map fun output => { settings with output }⟩,
      ⟨"size", none, .value fun s settings =>
        (Text.integerWithin? 1 8192 s).map fun n => { settings with size := n.toNat }⟩, .help]

def viewOptions : List (Opt (Option String)) :=
  [⟨"seed", some 's', .value fun s _ => some (some s)⟩, .help]

def commandNames : List String := ["list", "generate", "render", "view", "help"]

def readHelp {α : Type} (words : List String) : Except Refusal α :=
  match words with
  | [] => .error .help
  | [name] => if name ∈ commandNames then .error .help else refuse (.unknownCommand name)
  | _ :: word :: _ => refuse (.unknownCommand word)

/-- Reads the words from the name of a command on. -/
def Command.ofWords : List String → Except Refusal Command
  | [] => refuse .missingCommand
  | "list" :: words => do
    let _ ← readAll [.help] NoSettings.mk words
    return .list
  | "generate" :: words => do
    let s ← readAll generateOptions {} words
    return .generate s.run s.symbols s.events
  | "render" :: words => do
    let s ← readAll renderOptions {} words
    return .render s.run s.output s.size
  | "view" :: words => return .view (← readAll viewOptions none words)
  | "help" :: words => readHelp words
  | word :: _ => refuse (.unknownCommand word)

def Invocation.ofWords (words : List String) : Except Refusal Invocation := do
  let (config, words) ← readOptions mainOptions ⟨"grammars.yaml", []⟩ words
  return ⟨config, ← Command.ofWords words⟩

def Misuse.message : Misuse → String
  | unknownOption word => "unknown option: " ++ word
  | repeated option => "option given twice: " ++ option
  | missingValue option => "option without its value: " ++ option
  | unwantedValue option => "option takes no value: " ++ option
  | badValue option value => "bad value for " ++ option ++ ": " ++ value
  | unexpected word => "unexpected argument: " ++ word
  | missingCommand => "no command is given"
  | unknownCommand word => "unknown command: " ++ word

def usage : String :=
  "Usage: foliage [-c <CONFIG>] <COMMAND>\n\n" ++
    "Commands:\n" ++
    "  list      List the grammars of the configuration\n" ++
    "  generate  Run a grammar and print the report [-g -i -s --symbols --events]\n" ++
    "  render    Run a grammar and save a picture [-g -i -s -o --size]\n" ++
    "  view      Open the viewer [-s]\n" ++
    "  help      Print this text"

end Arbor.CommandLine
