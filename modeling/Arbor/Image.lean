import Arbor.Color
import Arbor.Scalar

/-! # Images

A grid of pixels that is painted at places of the plane. What lies outside is not
painted, and lines are painted by samples that are at most one pixel apart.
-/

namespace Arbor

structure Pixel where
  r : UInt8
  g : UInt8
  b : UInt8
  alpha : UInt8
  deriving DecidableEq, Repr, Inhabited

/-- A pixel that lets nothing through. -/
def Pixel.ofColor (c : Color) : Pixel := ⟨c.r, c.g, c.b, 255⟩

/-- A grid of pixels, row by row from the top. -/
structure Image where
  width : Nat
  height : Nat
  pixels : Array Pixel
  size_pixels : pixels.size = width * height

namespace Image

def filled (width height : Nat) (p : Pixel) : Image :=
  ⟨width, height, Array.replicate (width * height) p, by simp⟩

def get? (img : Image) (x y : Nat) : Option Pixel :=
  if x < img.width ∧ y < img.height then img.pixels[y * img.width + x]? else none

/-- Changes the pixel in a column and a row, if the image has it. -/
def set (img : Image) (x y : Nat) (p : Pixel) : Image :=
  if x < img.width ∧ y < img.height then
    { img with
      pixels := img.pixels.setIfInBounds (y * img.width + x) p
      size_pixels := by simp [img.size_pixels] }
  else img

def rows (img : Image) : List (List Pixel) :=
  (List.range img.height).map fun y =>
    (img.pixels.extract (y * img.width) ((y + 1) * img.width)).toList

section Painting

variable {α : Type} [Scalar α]

/-- The column or row of a coordinate; below zero there is none. -/
@[inline] def cell? (x : α) : Option Nat :=
  if Scalar.lt x 0 then none else some (Scalar.floor x).toNat

@[specialize] def paint (img : Image) (c : Color) (place : α × α) : Image :=
  match cell? place.1, cell? place.2 with
  | some x, some y => img.set x y (.ofColor c)
  | _, _ => img

@[specialize] def paintAll (img : Image) (c : Color) (places : List (α × α)) : Image :=
  places.foldl (fun img p => img.paint c p) img

end Painting

end Image

section Strokes

variable {α : Type} [Scalar α]

/-- The number of steps from one end of a line to the other: one for each pixel of
its longer side, and at least one. -/
@[specialize] def lineSteps (a b : α × α) : Nat :=
  max 1 (Scalar.ceil (Scalar.max (Scalar.abs (b.1 - a.1)) (Scalar.abs (b.2 - a.2)))).toNat

/-- The places that a line is painted at, both ends included. -/
@[specialize] def linePlaces (a b : α × α) : List (α × α) :=
  let steps := lineSteps a b
  (List.range (steps + 1)).map fun (i : Nat) =>
    let t := Scalar.ofInt i / Scalar.ofInt steps
    (a.1 + (b.1 - a.1) * t, a.2 + (b.2 - a.2) * t)

/-- The nine places that a dot is painted at, row by row. -/
@[specialize] def dotPlaces (p : α × α) : List (α × α) :=
  [-1, 0, 1].flatMap fun (dy : Int) => [-1, 0, 1].map fun (dx : Int) =>
    (p.1 + Scalar.ofInt dx, p.2 + Scalar.ofInt dy)

end Strokes

end Arbor
