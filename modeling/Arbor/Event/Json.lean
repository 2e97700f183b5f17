import Arbor.Event.Basic
import Arbor.Json.Basic

/-! # Events as JSON

An event is an object with its kind beside its parts. Reading is free in the
order of the fields and passes over fields that the kind does not have, but no
known field may come twice. An array of the kind and the parts is read as well.
-/

namespace Arbor.Event

def vectorToJson (v : Vec3 Float) : Json := .list [.real v.x, .real v.y, .real v.z]

/-- The object of an event; only markers have a `marker` field. -/
def toJson : Event Float → Json
  | point p c => .object
      [("kind", .text "point"), ("position", vectorToJson p), ("color", .text c.toString)]
  | marker p c => .object
      [("kind", .text "point"), ("position", vectorToJson p), ("color", .text c.toString),
        ("marker", .bool true)]
  | arrow o d l c => .object
      [("kind", .text "arrow"), ("origin", vectorToJson o), ("direction", vectorToJson d),
        ("length", .real l), ("color", .text c.toString)]

def vector? : Json → Option (Vec3 Float)
  | .list [x, y, z] => do
    let x ← x.toFloat?
    let y ← y.toFloat?
    let z ← z.toFloat?
    some ⟨x, y, z⟩
  | _ => none

def color? : Json → Option Color
  | .text s => Color.parse? s
  | _ => none

/-- The value of a field that must be there once. -/
def required? (name : String) (fields : List (String × Json)) : Option Json :=
  match Json.valuesOf name fields with
  | [v] => some v
  | _ => none

/-- Reads a marker flag, which may be left out. -/
def markerFlag? : List Json → Option Bool
  | [] => some false
  | [.bool b] => some b
  | _ => none

def ofFlag (flag : Bool) (p : Vec3 Float) (c : Color) : Event Float :=
  if flag then marker p c else point p c

def ofFields? (fields : List (String × Json)) : Option (Event Float) := do
  match ← required? "kind" fields with
  | .text "point" =>
    let p ← vector? (← required? "position" fields)
    let c ← color? (← required? "color" fields)
    let flag ← markerFlag? (Json.valuesOf "marker" fields)
    some (ofFlag flag p c)
  | .text "arrow" =>
    let o ← vector? (← required? "origin" fields)
    let d ← vector? (← required? "direction" fields)
    let l ← (← required? "length" fields).toFloat?
    let c ← color? (← required? "color" fields)
    some (arrow o d l c)
  | _ => none

def ofJson? : Json → Option (Event Float)
  | .object fields => ofFields? fields
  | .list (.text "point" :: p :: c :: flag) => do
    let p ← vector? p
    let c ← color? c
    let flag ← markerFlag? flag
    some (ofFlag flag p c)
  | .list [.text "arrow", o, d, l, c] => do
    let o ← vector? o
    let d ← vector? d
    let l ← l.toFloat?
    let c ← color? c
    some (arrow o d l c)
  | _ => none

end Arbor.Event
