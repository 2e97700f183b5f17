import Arbor.Config.Basic
import Arbor.Generation.Run
import Arbor.Viewer.Orbit

/-! # The viewer

A viewer shows the last run that succeeded, together with the controls for the
next one. A run that fails leaves what is shown and is reported beside it.
-/

namespace Arbor

inductive Check where
  | grid
  | ground
  | points
  | arrows
  | markers
  | autoRotate
  deriving DecidableEq, Repr

structure Viewer where
  config : Config
  /-- The identifier of the chosen grammar. -/
  selected : String
  seed : String
  iterations : Int
  events : List (Event Float)
  summary : Summary Float
  lastError : Option GenerationError
  orbit : Orbit
  /-- The switches that are off. -/
  off : List Check
  pointSize : Float32

namespace Viewer

/-- A viewer that has not run anything. -/
def blank (config : Config) (selected seed : String) (iterations : Int) : Viewer :=
  { config, selected, seed, iterations
    events := []
    summary := .empty
    lastError := none
    orbit := .home
    off := []
    pointSize := 2 }

def isOn (v : Viewer) (c : Check) : Bool := !v.off.contains c

def toggle (v : Viewer) (c : Check) : Viewer :=
  { v with off := if v.isOn c then c :: v.off else v.off.filter (· ≠ c) }

def runEvents (v : Viewer) : Except GenerationError (List (Event Float)) := do
  let entry ← (v.config.find v.selected).mapError .config
  let settings := { v.config.settings with iterations := v.iterations, seed := v.seed }
  let params ← (settings.toParams v.config.limits).mapError .config
  return (← Generation.events entry.grammar params).toList

def regenerate (v : Viewer) : Viewer :=
  match v.runEvents with
  | .ok events => { v with events, summary := .ofEvents events, lastError := none }
  | .error e => { v with lastError := some e }

def center (v : Viewer) : Viewer := { v with orbit := .home }

/-- A viewer of a configuration, which runs its first grammar at once. -/
def launch (config : Config) (seed : Option String) : Viewer :=
  let selected := (config.grammars.head?.map Entry.id).getD ""
  (blank config selected (seed.getD config.settings.seed) config.settings.iterations).regenerate

end Viewer

end Arbor
