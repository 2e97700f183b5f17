import Arbor.Config.Basic
import Arbor.Power
import Arbor.Yaml.Compose
import Arbor.Yaml.Value

/-! # Reading a configuration

A configuration is one YAML document. Fields are read in the order of the text, so
the first fault of the text is the one that is told. Unknown fields are passed
over and missing ones get their standard values, unless they are required; a
known field may not come twice. The parts of a grammar must be texts by their
meaning, while other texts may be any scalar.
-/

namespace Arbor.Config

open Yaml

inductive LoadError where
  /-- The text is not YAML, or its shape is not that of a configuration. -/
  | malformed
  | fault (cause : ConfigError)
  | noGrammars

/-- A fault of a configuration as it is told, if there is a fixed text for it. -/
def LoadError.message? : LoadError → Option String
  | malformed => none
  | fault cause => some cause.message
  | noGrammars => some "config defines no grammars"

/-- Reading fields: the document is at hand, and the followed aliases are
counted. -/
abbrev Loader := ReaderT Document (StateT Nat (Except LoadError))

def malformed {α : Type} : Loader α := throw .malformed

def ofReader {α : Type} (r : Reader α) : Loader α := fun d n =>
  match r d n with
  | some result => .ok result
  | none => .error .malformed

def orMalformed {α : Type} : Option α → Loader α
  | some x => return x
  | none => malformed

/-! ## Scalars -/

def textOf (n : Node) : Loader String := do
  match ← ofReader n.follow with
  | .scalar s _ _ => return s
  | _ => malformed

/-- The word of a scalar that may be a number: a plain one, or a literal block
with the number's tag. -/
def wordOf (tag : String) (n : Node) : Loader (List Char) := do
  match ← ofReader n.follow with
  | .scalar s .plain _ => return s.toList
  | .scalar s .literal (some t) => if t = tag then return s.toList else malformed
  | _ => malformed

def floatOf (n : Node) : Loader Float := do
  orMalformed (float? (← wordOf "tag:yaml.org,2002:float" n))

/-- A signed integer of sixty-four bits. -/
def intOf (n : Node) : Loader Int := do
  orMalformed (int64? (← wordOf "tag:yaml.org,2002:int" n))

def natOf (greatest : Nat) (n : Node) : Loader Nat := do
  let word ← wordOf "tag:yaml.org,2002:int" n
  orMalformed ((unsigned? (twoPow 64 - 1) word).filter (· ≤ greatest))

def colorOf (n : Node) : Loader Color := do
  let s ← textOf n
  match Color.parse? s with
  | some c => return c
  | none => throw (.fault (.color s))

/-! ## Collections -/

/-- Whether a node is an absent value, which reads as an empty collection. -/
def isAbsent : Node → Bool
  | .scalar s style _ => s.isEmpty && style = .plain
  | _ => false

def listOf {α : Type} (item : Node → Loader α) (depth : Nat) (n : Node) : Loader (List α) := do
  let n ← ofReader n.follow
  if isAbsent n then return []
  else match n with
    | .sequence _ items complete =>
      if depth = 0 then malformed
      else
        let xs ← items.mapM item
        if complete then return xs else malformed
    | _ => malformed

def vectorOf (depth : Nat) (n : Node) : Loader (Vec3 Float) := do
  match ← listOf floatOf depth n with
  | [x, y, z] => return ⟨x, y, z⟩
  | _ => malformed

/-- Reads the fields of a mapping in order. `read` takes what was read so far, a
field's name and its node. -/
def fieldsOf {α : Type} (start : α) (read : α → String → Node → Loader α) (depth : Nat)
    (n : Node) : Loader α := do
  let n ← ofReader n.follow
  if isAbsent n then return start
  else match n with
    | .mapping _ entries complete =>
      if depth = 0 then malformed
      else
        let result ← entries.foldlM (fun x (k, v) => do read x (← textOf k) v) start
        if complete then return result else malformed
    | _ => malformed

/-- Reads a field that was not there before. -/
def once {α : Type} (old : Option α) (new : Loader α) : Loader (Option α) := do
  if old.isSome then malformed else return some (← new)

/-! ## The parts of a configuration -/

structure PaletteFields where
  point : Option Color := none
  arrow : Option Color := none
  restore : Option Color := none
  unmatchedRestore : Option Color := none

/-- A palette, each color of which may be left out. -/
def paletteOf (depth : Nat) (n : Node) : Loader Palette := do
  let f : PaletteFields ← fieldsOf {} (fun f name v => do
    match name with
    | "point" => return { f with point := ← once f.point (colorOf v) }
    | "arrow" => return { f with arrow := ← once f.arrow (colorOf v) }
    | "restore" => return { f with restore := ← once f.restore (colorOf v) }
    | "unmatched_restore" =>
      return { f with unmatchedRestore := ← once f.unmatchedRestore (colorOf v) }
    | _ => return f) depth n
  let base := Palette.standard
  return ⟨f.point.getD base.point, f.arrow.getD base.arrow, f.restore.getD base.restore,
    f.unmatchedRestore.getD base.unmatchedRestore⟩

structure StateFields where
  position : Option (Vec3 Float) := none
  direction : Option (Vec3 Float) := none
  length : Option Float := none
  radius : Option Float := none
  angle : Option Float := none

def stateOf (depth : Nat) (n : Node) : Loader (Turtle.State Float) := do
  let f : StateFields ← fieldsOf {} (fun f name v => do
    match name with
    | "position" => return { f with position := ← once f.position (vectorOf (depth - 1) v) }
    | "direction" => return { f with direction := ← once f.direction (vectorOf (depth - 1) v) }
    | "length" => return { f with length := ← once f.length (floatOf v) }
    | "radius" => return { f with radius := ← once f.radius (floatOf v) }
    | "angle" => return { f with angle := ← once f.angle (floatOf v) }
    | _ => return f) depth n
  let base := Turtle.State.standard
  return ⟨f.position.getD base.position, f.direction.getD base.direction,
    f.length.getD base.length, f.radius.getD base.radius, f.angle.getD base.angle⟩

structure SettingsFields where
  iterations : Option Int := none
  seed : Option String := none
  lengthDecay : Option Float := none
  radiusDecay : Option Float := none
  angleOffset : Option Float := none
  initial : Option (Turtle.State Float) := none
  palette : Option Palette := none

def settingsOf (depth : Nat) (n : Node) : Loader Settings := do
  let f : SettingsFields ← fieldsOf {} (fun f name v => do
    match name with
    | "iterations" => return { f with iterations := ← once f.iterations (intOf v) }
    | "seed" => return { f with seed := ← once f.seed (textOf v) }
    | "length_decay" => return { f with lengthDecay := ← once f.lengthDecay (floatOf v) }
    | "radius_decay" => return { f with radiusDecay := ← once f.radiusDecay (floatOf v) }
    | "angle_offset" => return { f with angleOffset := ← once f.angleOffset (floatOf v) }
    | "initial_state" => return { f with initial := ← once f.initial (stateOf (depth - 1) v) }
    | "palette" => return { f with palette := ← once f.palette (paletteOf (depth - 1) v) }
    | _ => return f) depth n
  let base := Settings.standard
  return ⟨f.iterations.getD base.iterations, f.seed.getD base.seed,
    f.lengthDecay.getD base.lengthDecay, f.radiusDecay.getD base.radiusDecay,
    f.angleOffset.getD base.angleOffset, f.initial.getD base.initial,
    f.palette.getD base.palette⟩

structure LimitsFields where
  maxIterations : Option Nat := none
  maxSymbols : Option Nat := none

def limitsOf (depth : Nat) (n : Node) : Loader Limits := do
  let f : LimitsFields ← fieldsOf {} (fun f name v => do
    match name with
    | "max_iterations" =>
      return { f with maxIterations := ← once f.maxIterations (natOf (twoPow 32 - 1) v) }
    | "max_symbols" =>
      return { f with maxSymbols := ← once f.maxSymbols (natOf (twoPow 64 - 1) v) }
    | _ => return f) depth n
  let base := Limits.standard
  return ⟨f.maxIterations.getD base.maxIterations, f.maxSymbols.getD base.maxSymbols⟩

/-! ## Grammars -/

def textValue? : Value → Option String
  | .text s => some s
  | _ => none

def floatValue? : Value → Option Float
  | .int n => some (Float.ofInt n)
  | .real x => some x
  | _ => none

/-- The name of a field of a rule; it may be given by its place. -/
def ruleField? : Value → Option String
  | .text s => some s
  | .int n =>
    if n = 0 then some "input" else if n = 1 then some "output"
    else if n = 2 then some "probability" else if n < 0 then none else some ""
  | _ => none

/-- The only value of a field, if it is there. -/
def atMostOne? (name : String) (fields : List (String × Value)) : Option (Option Value) :=
  match fields.filter (·.1 == name) with
  | [] => some none
  | [(_, v)] => some (some v)
  | _ => none

def ruleDraft? (input output : Value) (weight : Option Value) : Option Grammar.RuleDraft := do
  let input ← textValue? input
  let output ← textValue? output
  let weight ← match weight with
    | none => some 0
    | some v => floatValue? v
  some ⟨input, output, weight⟩

/-- A rule as written: a mapping, or a list of its parts. -/
def ruleOf? : Value → Option Grammar.RuleDraft
  | .list [i, o] => ruleDraft? i o none
  | .list [i, o, w] => ruleDraft? i o (some w)
  | .map entries => do
    let fields ← entries.mapM fun (k, v) => (ruleField? k).map (·, v)
    let input ← atMostOne? "input" fields
    let output ← atMostOne? "output" fields
    let weight ← atMostOne? "probability" fields
    ruleDraft? (← input) (← output) weight
  | _ => none

def rulesOf? : Value → Option (List Grammar.RuleDraft)
  | .list vs => vs.mapM ruleOf?
  | _ => none

/-- The fields of a grammar's entry; those of the grammar itself are kept as
values until the entry has been read. -/
structure EntryFields where
  id : Option String := none
  name : Option String := none
  others : List (String × Value) := []

def valueFuel (d : Document) : Nat := (maxDepth + 1) * (d.root.steps + 2)

def entryOf (depth : Nat) (n : Node) : Loader Entry := do
  let f : EntryFields ← fieldsOf {} (fun f name v => do
    match name with
    | "id" => return { f with id := ← once f.id (textOf v) }
    | "name" => return { f with name := ← once f.name (textOf v) }
    | _ =>
      let value ← ofReader (v.value (valueFuel (← read)) (depth - 1))
      return { f with others := f.others ++ [(name, value)] }) depth n
  let id ← orMalformed f.id
  let name ← orMalformed f.name
  let draft : Option Grammar.Draft := do
    let start ← textValue? (← (← atMostOne? "axiom" f.others))
    let rules ← rulesOf? (← (← atMostOne? "rules" f.others))
    some ⟨start, rules⟩
  match (← orMalformed draft).check with
  | .ok grammar => return ⟨id, name, grammar⟩
  | .error cause => throw (.fault cause)

/-! ## The whole -/

structure ConfigFields where
  settings : Option Settings := none
  limits : Option Limits := none
  grammars : Option (List Entry) := none

def configOf (depth : Nat) (n : Node) : Loader Config := do
  let f : ConfigFields ← fieldsOf {} (fun f name v => do
    match name with
    | "generation" => return { f with settings := ← once f.settings (settingsOf (depth - 1) v) }
    | "limits" => return { f with limits := ← once f.limits (limitsOf (depth - 1) v) }
    | "grammars" =>
      return { f with grammars := ← once f.grammars (listOf (entryOf (depth - 2)) (depth - 1) v) }
    | _ => return f) depth n
  let grammars ← orMalformed f.grammars
  return ⟨f.settings.getD .standard, f.limits.getD .standard, grammars⟩

/-- Reads a configuration. Faults of its parts come before faults of the text
behind them, and a configuration without any grammar is refused last. -/
def ofYaml (text : String) : Except LoadError Config := do
  let document := Document.ofText text
  let (config, _) ← (configOf maxDepth document.root).run document |>.run 0
  if !document.sound then throw .malformed
  if config.grammars.isEmpty then throw .noGrammars
  return config

end Arbor.Config
