import Arbor.Color
import Arbor.Vec3

/-! # Draw events

What a turtle leaves behind for a renderer: end points of segments, arrows along
them, and markers where it resumed a saved place.
-/

namespace Arbor

structure Palette where
  /-- End points of segments. -/
  point : Color
  /-- Segments. -/
  arrow : Color
  /-- Places resumed by a closing bracket. -/
  restore : Color
  /-- Closing brackets with nothing to resume. -/
  unmatchedRestore : Color
  deriving DecidableEq, Repr

def Palette.standard : Palette :=
  ⟨.red, .yellow, .green, .green⟩

/-- One drawing instruction. -/
inductive Event (α : Type) where
  | point (position : Vec3 α) (color : Color)
  | marker (position : Vec3 α) (color : Color)
  | arrow (origin direction : Vec3 α) (length : α) (color : Color)
  deriving DecidableEq, Repr, Inhabited

namespace Event

variable {α : Type}

def color : Event α → Color
  | point _ c | marker _ c | arrow _ _ _ c => c

def isMarker : Event α → Bool
  | marker _ _ => true
  | _ => false

/-- The first and the last position that an event touches. -/
@[inline] def extent [Scalar α] : Event α → Vec3 α × Vec3 α
  | point p _ | marker p _ => (p, p)
  | arrow o d l _ => (o, o + d.scale l)

end Event

end Arbor
