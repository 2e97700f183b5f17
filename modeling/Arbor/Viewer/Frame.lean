import Arbor.Viewer.Basic
import Arbor.Viewer.Plot

/-! # Frames

One frame takes what the user does, changes the viewer and shows it. The controls
of a run come first, then the controls of the view, and the camera moves last.
-/

namespace Arbor.Viewer

/-- Keys that are held, and whether the reset key was pressed. -/
structure Keys where
  left : Bool := false
  right : Bool := false
  up : Bool := false
  down : Bool := false
  home : Bool := false
  deriving DecidableEq, Repr

structure Input where
  /-- The identifier of a grammar that is picked. -/
  picked : Option String := none
  /-- A text that replaces the seed. -/
  seedText : Option String := none
  /-- Whether the seed's field is left. -/
  seedLeft : Bool := false
  /-- A position of the slider for the number of passes. -/
  iterations : Option Int := none
  /-- Whether the button for a new run is clicked. -/
  regenerate : Bool := false
  /-- Switches that are clicked. -/
  toggled : List Check := []
  /-- A value for the pitch; what is kept of it is its binary32 neighbour. -/
  pitch : Option Float := none
  /-- A value for the yaw. -/
  yaw : Option Float := none
  /-- A position of the slider for the size of points. -/
  pointSize : Option Float := none
  /-- Whether the button for the camera is clicked. -/
  center : Bool := false
  keys : Keys := {}
  /-- Motion of the pointer with the secondary button held. -/
  drag : Option (Float32 × Float32) := none

structure Picture where
  labels : List String
  selected : String
  seed : String
  iterations : Int
  pointSize : Float32
  /-- The pitch as its control shows it, before the camera moves: a value just set in full. -/
  pitch : Float
  /-- The yaw as its control shows it. -/
  yaw : Float
  /-- The switches that are off. -/
  off : List Check
  /-- Whether the plot has a grid. -/
  grid : Bool
  items : List (PlotItem (Float × Float))

def clampIterations (v : Viewer) (n : Int) : Int := max 0 (min n v.config.limits.maxIterations)

/-- Keeps a value within the range of its control, where a NaN goes to the upper end. -/
def within (low high x : Float) : Float :=
  if x < low then low else if x < high then x else high

def clampPointSize (x : Float) : Float32 := (within 0.5 6 x).toFloat32

/-- What the control of an angle shows, given the value it is set to and the one it had. -/
def shownAngle (set : Option Float) (angle : Float32) : Float :=
  within (-(1 / 0)) (1 / 0) (set.getD angle.toFloat)

def rotate (v : Viewer) : Viewer :=
  if v.isOn .autoRotate then { v with orbit := v.orbit.turned 0 0.005 } else v

/-- The controls of a run, and whether they ask for one. -/
def setControls (v : Viewer) (input : Input) : Viewer × Bool :=
  let selected := input.picked.getD v.selected
  let seed := input.seedText.getD v.seed
  let before := v.clampIterations v.iterations
  let iterations := v.clampIterations (input.iterations.getD before)
  let changed := selected ≠ v.selected || input.seedLeft || iterations ≠ before || input.regenerate
  ({ v with selected, seed, iterations }, changed)

/-- The controls of a run; at most one run follows from them. -/
def control (v : Viewer) (input : Input) : Viewer :=
  let (v, changed) := v.setControls input
  if changed then v.regenerate else v

/-- The controls of the view, the button for the camera apart. -/
def adjust (v : Viewer) (input : Input) : Viewer :=
  let v := input.toggled.foldl toggle v
  { v with
    orbit := ⟨(shownAngle input.pitch v.orbit.pitch).toFloat32,
      (shownAngle input.yaw v.orbit.yaw).toFloat32⟩
    pointSize := clampPointSize (input.pointSize.getD v.pointSize.toFloat) }

/-- Turns the camera by held keys, one after the other. -/
def turnByKeys (o : Orbit) (k : Keys) : Orbit :=
  let o := if k.left then o.turned 0 (-0.03) else o
  let o := if k.right then o.turned 0 0.03 else o
  let o := if k.up then o.turned (-0.03) 0 else o
  let o := if k.down then o.turned 0.03 0 else o
  if k.home then .home else o

def turnByDrag (o : Orbit) : Option (Float32 × Float32) → Orbit
  | some (dx, dy) => o.turned (dy * 0.005) (dx * 0.005)
  | none => o

def steer (v : Viewer) (input : Input) : Viewer :=
  { v with orbit := (turnByDrag (turnByKeys v.orbit input.keys) input.drag).clamped }

def ruleLabel (r : Rule) : String :=
  r.input.toString ++ " -> " ++ String.ofList r.output ++
    " (" ++ Decimal.plain.write r.weight ++ ")"

def runLabels (v : Viewer) : List String :=
  let grammar := match v.config.find v.selected with
    | .ok entry =>
      ("Axiom: " ++ String.ofList entry.grammar.start) :: entry.grammar.rules.map ruleLabel
    | .error _ => []
  let s := v.summary
  ["Foliage", "Grammar:", "Seed:", "Iterations"] ++ grammar ++
    [s!"{s.points} points | {s.arrows} arrows | {s.markers} markers"] ++
    (v.lastError.map GenerationError.message).toList

def viewLabels : List String :=
  ["Rotate:", "Point size", "Right-drag: rotate | Arrow keys: rotate | Home: reset"]

def shown (v : Viewer) : Shown :=
  ⟨v.isOn .ground, v.isOn .points, v.isOn .arrows, v.isOn .markers⟩

def frame (v : Viewer) (input : Input) : Viewer × Picture :=
  let v := v.rotate.control input
  let labels := v.runLabels ++ viewLabels
  let pitch := shownAngle input.pitch v.orbit.pitch
  let yaw := shownAngle input.yaw v.orbit.yaw
  let v := v.adjust input
  let v := (if input.center then v.center else v).steer input
  (v,
    { labels, pitch, yaw
      selected := v.selected
      seed := v.seed
      iterations := v.iterations
      pointSize := v.pointSize
      off := v.off
      grid := v.isOn .grid
      items := Plot.items v.shown v.orbit.project v.events })

end Arbor.Viewer
