import Arbor.Viewer.Frame

/-! # Gestures

What a user sets out to do takes one or more frames. Gestures that need a widget
can fail for want of it; before the first frame there are no widgets at all.
-/

namespace Arbor.Viewer

inductive Gesture where
  /-- Lets frames pass. -/
  | wait (frames : Nat)
  /-- Clicks what has a label. -/
  | click (label : String)
  /-- Picks a grammar by its name. -/
  | pick (name : String)
  | setIterations (n : Int)
  | setPointSize (x : Float)
  /-- Sets the angle that has a label. -/
  | setAngle (label : String) (x : Float)
  /-- Replaces the seed and leaves its field. -/
  | typeSeed (text : String)
  /-- Holds keys for some frames; the reset key counts in the first. -/
  | hold (keys : Keys) (frames : Nat)
  /-- Moves the pointer with a button held. -/
  | drag (secondary : Bool) (dx dy : Float)

/-- The labels of switches and buttons, and what a click on each does. -/
def clickables : List (String × Input) :=
  [("Grid", { toggled := [.grid] }), ("Ground", { toggled := [.ground] }),
    ("Points", { toggled := [.points] }), ("Arrows", { toggled := [.arrows] }),
    ("Markers", { toggled := [.markers] }), ("Auto-rotate", { toggled := [.autoRotate] }),
    ("Regenerate", { regenerate := true }), ("Center", { center := true })]

/-- What a click does on the first label that begins with a text. -/
def clickInput? (text : String) : Option Input :=
  (clickables.find? fun (label, _) => text.toList.isPrefixOf label.toList).map (·.2)

def angleInput? (label : String) (x : Float) : Option Input :=
  if label = "X" then some { pitch := some x }
  else if label = "Y" then some { yaw := some x }
  else none

abbrev Place := Float32 × Float32

def pressPlace : Place := (700, 300)

def motion (start : Option Place) (goal : Place) : Place :=
  match start with
  | some (x, y) => (goal.1 - x, goal.2 - y)
  | none => (0, 0)

structure Session where
  viewer : Viewer
  /-- The picture of the last frame, if there was one. -/
  last : Option Picture
  /-- Where the pointer is, while it is on the window. -/
  pointer : Option Place

def dragPlace (dx dy : Float) : Place :=
  (pressPlace.1 + dx.toFloat32, pressPlace.2 + dy.toFloat32)

/-- Where a gesture leaves the pointer; it leaves the window when frames pass without input. -/
def Gesture.pointer (g : Gesture) (before : Option Place) : Option Place :=
  match g with
  | drag _ dx dy => some (dragPlace dx dy)
  | wait n => if n = 0 then before else none
  | _ => before

/-- The frames of a gesture, and whether its widgets were found. -/
def Gesture.frames (g : Gesture) (s : Session) : List Input × Bool :=
  let started := s.last.isSome
  let single (input : Option Input) : List Input × Bool :=
    match input with
    | some i => if started then ([i], true) else ([], false)
    | none => ([], false)
  match g with
  | wait n => (List.replicate n {}, true)
  | click label => single (clickInput? label)
  | pick name =>
    match if started then s.viewer.config.grammars.find? (·.name == name) else none with
    | some entry => ([{}, {}, { picked := some entry.id }, {}], true)
    | none => ([{}, {}, {}], false)
  | setIterations n => single (some { iterations := some n })
  | setPointSize x => single (some { pointSize := some x })
  | setAngle label x => single (angleInput? label x)
  | typeSeed text =>
    if started then ([{}, { seedText := some text }, { seedLeft := true }], true) else ([], false)
  | hold keys n =>
    ((List.range n).map fun i => { keys := if i = 0 then keys else { keys with home := false } },
      true)
  | drag secondary dx dy =>
    if secondary then
      ([{ drag := some (motion s.pointer pressPlace) },
        { drag := some (motion (some pressPlace) (dragPlace dx dy)) }], true)
    else ([{}, {}], true)

namespace Session

def start (config : Config) (seed : Option String) : Session := ⟨.launch config seed, none, none⟩

def run (s : Session) (inputs : List Input) : Session :=
  inputs.foldl (fun s i => let (v, p) := s.viewer.frame i; { s with viewer := v, last := some p }) s

def perform (s : Session) (g : Gesture) : Session × Bool :=
  let (inputs, found) := g.frames s
  ({ s.run inputs with pointer := g.pointer s.pointer }, found)

end Session

end Arbor.Viewer
