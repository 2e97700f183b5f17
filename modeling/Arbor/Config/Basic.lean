import Arbor.Generation.Params
import Arbor.Grammar.Catalog

/-! # Configurations

Named grammars with the settings and the limits of their runs. A run is resolved
from a configuration, what the user asks for and the environment.
-/

namespace Arbor

structure Entry where
  id : String
  name : String
  grammar : Grammar

/-- Settings of a run as written, before any check. -/
structure Settings where
  iterations : Int
  seed : String
  lengthDecay : Float
  radiusDecay : Float
  angleOffset : Float
  initial : Turtle.State Float
  palette : Palette

namespace Settings

def standard : Settings :=
  { iterations := 4
    seed := Xorshift.defaultSeed
    lengthDecay := Turtle.Params.standard.lengthDecay
    radiusDecay := Turtle.Params.standard.radiusDecay
    angleOffset := Turtle.Params.standard.angleOffset
    initial := .standard
    palette := .standard }

def turtle (s : Settings) : Turtle.Params Float :=
  ⟨s.lengthDecay, s.radiusDecay, s.angleOffset, s.palette⟩

/-- The checked parameters of a run: first the number of passes, then the initial
state, then everything together. -/
def toParams (s : Settings) (limits : Limits) : Except ConfigError Generation.Params := do
  let iterations ← Generation.Params.iterationsOf s.iterations
  let initial ← s.initial.validated
  let params : Generation.Params := ⟨iterations, s.seed, initial, s.turtle, limits⟩
  let _ ← params.validate
  return params

end Settings

structure Config where
  settings : Settings
  limits : Limits
  grammars : List Entry

/-- What a user asks for in place of the settings. -/
structure Overrides where
  grammar : Option String
  iterations : Option Int
  seed : Option String
  deriving Repr

namespace Config

/-- The configuration that applies where there is no file. -/
def builtin : Config :=
  { settings := .standard
    limits := .standard
    grammars :=
      [⟨"bush", "Bush", Grammar.bush⟩, ⟨"shrub", "Shrub", Grammar.shrub⟩,
        ⟨"meadow", "Meadow (stochastic)", Grammar.meadow⟩] }

def find (c : Config) (id : String) : Except ConfigError Entry :=
  match c.grammars.find? (·.id == id) with
  | some entry => .ok entry
  | none => .error (.unknownGrammar id)

/-- The grammar of an identifier, or the first one. -/
def select (c : Config) : (id : Option String) → Except ConfigError Entry
  | some id => c.find id
  | none =>
    match c.grammars.head? with
    | some entry => .ok entry
    | none => .error (.unknownGrammar "<none configured>")

/-- The grammar and the checked parameters of a run. A seed that the user asks
for comes before one of the environment, and that before the settings. -/
def resolve (c : Config) (overrides : Overrides) (environmentSeed : Option String) :
    Except ConfigError (Entry × Generation.Params) := do
  let entry ← c.select overrides.grammar
  let settings := { c.settings with
    iterations := overrides.iterations.getD c.settings.iterations
    seed := (overrides.seed.or environmentSeed).getD c.settings.seed }
  let params ← settings.toParams c.limits
  return (entry, params)

end Config

end Arbor
