import Arbor.Event.Summary

/-! # The camera of a picture

An orthographic camera with its two directions of the view plane, and the square
of ground under a plant.
-/

namespace Arbor

structure Camera (α : Type) where
  target : Vec3 α
  right : Vec3 α
  up : Vec3 α
  deriving DecidableEq, Repr

namespace Camera

variable {α : Type} [Geometric α]

/-- The camera that looks at a target from the direction of an offset. -/
@[specialize] def lookingAt (target offset : Vec3 α) : Camera α :=
  let forward := (-offset).normalize
  let right := (forward.cross Vec3.up).normalize
  ⟨target, right, right.cross forward⟩

/-- The direction from which plants are looked at. -/
@[inline] def quarterView : Vec3 α := ⟨0.3, 0.4, 1⟩

/-- The camera that looks at the middle of what a summary describes. -/
@[specialize] def fitted (s : Summary α) : Camera α :=
  lookingAt (s.center?.getD Vec3.zero) quarterView

/-- The place of a position in the view plane. -/
@[inline] def project (c : Camera α) (p : Vec3 α) : α × α :=
  let d := p - c.target
  (d.dot c.right, d.dot c.up)

end Camera

@[inline] def groundSize {α : Type} [Scalar α] : α := Scalar.ofInt 4

@[specialize] def groundCorners {α : Type} [Scalar α] : List (Vec3 α) :=
  let h : α := groundSize / Scalar.ofInt 2
  [⟨-h, 0, -h⟩, ⟨h, 0, -h⟩, ⟨h, 0, h⟩, ⟨-h, 0, h⟩]

end Arbor
