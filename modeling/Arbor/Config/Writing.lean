import Arbor.Config.Basic
import Arbor.Event.Json
import Arbor.Yaml.Printer

/-! # Writing a configuration

A configuration as JSON and as YAML, with all its fields in a fixed order.
-/

namespace Arbor

def Turtle.State.toJson (s : Turtle.State Float) : Json :=
  .object [("position", Event.vectorToJson s.position),
    ("direction", Event.vectorToJson s.direction), ("length", .real s.length),
    ("radius", .real s.radius), ("angle", .real s.angle)]

def Palette.toJson (p : Palette) : Json :=
  .object [("point", .text p.point.toString), ("arrow", .text p.arrow.toString),
    ("restore", .text p.restore.toString),
    ("unmatched_restore", .text p.unmatchedRestore.toString)]

def Settings.toJson (s : Settings) : Json :=
  .object [("iterations", .int s.iterations), ("seed", .text s.seed),
    ("length_decay", .real s.lengthDecay), ("radius_decay", .real s.radiusDecay),
    ("angle_offset", .real s.angleOffset), ("initial_state", s.initial.toJson),
    ("palette", s.palette.toJson)]

def Limits.toJson (l : Limits) : Json :=
  .object [("max_iterations", .int l.maxIterations), ("max_symbols", .int l.maxSymbols)]

def Rule.toJson (r : Rule) : Json :=
  .object [("input", .text r.input.toString), ("output", .text (String.ofList r.output)),
    ("probability", .real r.weight)]

def Entry.toJson (e : Entry) : Json :=
  .object [("id", .text e.id), ("name", .text e.name),
    ("axiom", .text (String.ofList e.grammar.start)),
    ("rules", .list (e.grammar.rules.map Rule.toJson))]

def Config.toJson (c : Config) : Json :=
  .object [("generation", c.settings.toJson), ("limits", c.limits.toJson),
    ("grammars", .list (c.grammars.map Entry.toJson))]

/-- A configuration as a text that can be read again. -/
def Config.toYaml (c : Config) : String := Yaml.text c.toJson

end Arbor
