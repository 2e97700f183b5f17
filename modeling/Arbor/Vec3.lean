import Arbor.Scalar

/-! # Vectors in space

Three coordinates with the operations that the turtle, the cameras and the
bounding boxes need.
-/

namespace Arbor

structure Vec3 (α : Type) where
  x : α
  y : α
  z : α
  deriving DecidableEq, Repr, Inhabited

namespace Vec3

section Scalar

variable {α : Type} [Scalar α]

@[inline] def zero : Vec3 α := ⟨0, 0, 0⟩

@[inline] def up : Vec3 α := ⟨0, 1, 0⟩

@[inline] instance : Add (Vec3 α) := ⟨fun a b => ⟨a.x + b.x, a.y + b.y, a.z + b.z⟩⟩
@[inline] instance : Sub (Vec3 α) := ⟨fun a b => ⟨a.x - b.x, a.y - b.y, a.z - b.z⟩⟩
@[inline] instance : Neg (Vec3 α) := ⟨fun a => ⟨-a.x, -a.y, -a.z⟩⟩

@[inline] def scale (a : Vec3 α) (s : α) : Vec3 α := ⟨a.x * s, a.y * s, a.z * s⟩

@[inline] def dot (a b : Vec3 α) : α := a.x * b.x + a.y * b.y + a.z * b.z

@[inline] def cross (a b : Vec3 α) : Vec3 α :=
  ⟨a.y * b.z - a.z * b.y, a.z * b.x - a.x * b.z, a.x * b.y - a.y * b.x⟩

@[inline] def min (a b : Vec3 α) : Vec3 α :=
  ⟨Scalar.min a.x b.x, Scalar.min a.y b.y, Scalar.min a.z b.z⟩

@[inline] def max (a b : Vec3 α) : Vec3 α :=
  ⟨Scalar.max a.x b.x, Scalar.max a.y b.y, Scalar.max a.z b.z⟩

end Scalar

section Geometric

variable {α : Type} [Geometric α]

@[inline] def length (a : Vec3 α) : α := Geometric.sqrt (a.dot a)

/-- The unit vector of the same direction; a vector without a positive length
stays as it is. -/
@[inline] def normalize (a : Vec3 α) : Vec3 α :=
  if Scalar.lt 0 a.length then a.scale (1 / a.length) else a

/-- The unit vector at `polar` from the upward direction, turned by `azimuth`
around it; both in radians. -/
@[inline] def ofSpherical (polar azimuth : α) : Vec3 α :=
  ⟨Geometric.sin polar * Geometric.cos azimuth, Geometric.cos polar,
    Geometric.sin polar * Geometric.sin azimuth⟩

end Geometric

def isFinite (a : Vec3 Float) : Bool := a.x.isFinite && a.y.isFinite && a.z.isFinite

end Vec3

end Arbor
