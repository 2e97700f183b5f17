import Arbor.Vec3

/-! # The orbit camera

The viewer looks at the origin from an orbit that is given by two angles. Its
arithmetic is done in binary32.
-/

namespace Arbor

/-- The angles of an orbit camera, in radians. -/
structure Orbit where
  /-- Up and down. -/
  pitch : Float32
  /-- Left and right. -/
  yaw : Float32

namespace Orbit

def home : Orbit := ⟨0.3, 0⟩

def maxPitch : Float32 := 80 * 3.1415927 / 180

def clamped (o : Orbit) : Orbit :=
  { o with
    pitch := if o.pitch < -maxPitch then -maxPitch
      else if maxPitch < o.pitch then maxPitch else o.pitch }

def turned (o : Orbit) (pitch yaw : Float32) : Orbit := ⟨o.pitch + pitch, o.yaw + yaw⟩

/-- The place of a position in the view plane: turned around the upward axis by
the yaw, then around the axis to the right by the pitch. -/
def project (o : Orbit) (p : Vec3 Float) : Float × Float :=
  let x := p.x.toFloat32
  let y := p.y.toFloat32
  let z := p.z.toFloat32
  let right := x * o.yaw.cos + z * o.yaw.sin
  let back := -x * o.yaw.sin + z * o.yaw.cos
  let up := y * o.pitch.cos - back * o.pitch.sin
  (right.toFloat, up.toFloat)

end Orbit

end Arbor
