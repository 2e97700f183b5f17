import Arbor.Camera
import Arbor.Image

/-! # Snapshots

A picture of a list of events. The camera is fitted to all events, and to the
ground if that is drawn, whichever layers are switched on; then the ground and the
events are painted one over the other.
-/

namespace Arbor.Snapshot

structure Layers where
  points : Bool
  arrows : Bool
  markers : Bool
  ground : Bool
  deriving DecidableEq, Repr

def Layers.all : Layers := ⟨true, true, true, true⟩

def Layers.shows {α : Type} (l : Layers) : Event α → Bool
  | .point _ _ => l.points
  | .marker _ _ => l.markers
  | .arrow _ _ _ _ => l.arrows

def background : Pixel := ⟨20, 20, 31, 255⟩

def groundColor : Color := .ofHex 0x1f5f1f

/-- A camera with the scale and the middle of its picture. -/
structure Viewport (α : Type) where
  camera : Camera α
  half : α
  scale : α

variable {α : Type} [Geometric α]

@[inline] def Viewport.place (v : Viewport α) (p : Vec3 α) : α × α :=
  let (x, y) := v.camera.project p
  (v.half + x * v.scale, v.half - y * v.scale)

/-- Every position that the picture has room for. -/
@[specialize] def positions (events : List (Event α)) (ground : Bool) : List (Vec3 α) :=
  (events.flatMap fun e => [e.extent.1, e.extent.2]) ++ if ground then groundCorners else []

/-- The largest view-plane coordinate of some positions. -/
@[specialize] def reach (c : Camera α) (ps : List (Vec3 α)) : α :=
  ps.foldl (fun extent p =>
    let (x, y) := c.project p
    Scalar.max (Scalar.max extent (Scalar.abs x)) (Scalar.abs y)) 1e-6

/-- The viewport that shows all events, and the ground if it is drawn, in a square
of `size` pixels. -/
@[specialize] def viewport (events : List (Event α)) (size : Nat) (ground : Bool) : Viewport α :=
  let camera := Camera.fitted (Summary.ofEvents events)
  let half := Scalar.ofInt size / Scalar.ofInt 2
  ⟨camera, half, half * 0.9 / reach camera (positions events ground)⟩

@[specialize] def Viewport.footprint (v : Viewport α) : Event α → List (α × α)
  | .point p _ | .marker p _ => dotPlaces (v.place p)
  | .arrow o d l _ => linePlaces (v.place o) (v.place (o + d.scale l))

@[specialize] def Viewport.outline (v : Viewport α) : List (α × α) :=
  let corners := groundCorners.map v.place
  (corners.zip (corners.tail ++ corners.take 1)).flatMap fun (a, b) => linePlaces a b

@[specialize] def render (events : List (Event α)) (size : Nat) (layers : Layers) : Image :=
  let v := viewport events size layers.ground
  let img := Image.filled size size background
  let img := if layers.ground then img.paintAll groundColor v.outline else img
  (events.filter layers.shows).foldl (fun img e => img.paintAll e.color (v.footprint e)) img

end Arbor.Snapshot
