import Arbor.Binary64

/-! # Scalars

The arithmetic of a growth, apart from the numbers it is done in. Programs run
in binary64; statements about exact arithmetic use the same definitions over an
ordered field. Sine, cosine and square root are asked for separately.
-/

namespace Arbor

/-- Arithmetic with decidable comparison, decimal constants and rounding down. -/
class Scalar (α : Type) extends Zero α, One α, Add α, Sub α, Mul α, Div α, Neg α,
    OfScientific α where
  /-- Strict comparison; false when an operand is not a number. -/
  lt : α → α → Bool
  /-- Weak comparison; false when an operand is not a number. -/
  le : α → α → Bool
  /-- The scalar nearest to an integer. -/
  ofInt : Int → α
  /-- The greatest integer not above a scalar. -/
  floor : α → Int

class Geometric (α : Type) extends Scalar α where
  sqrt : α → α
  sin : α → α
  cos : α → α
  pi : α

namespace Scalar

variable {α : Type} [Scalar α]

/-- Not-a-number is the only scalar that is not at most itself. -/
@[inline] def isNumber (x : α) : Bool := le x x

/-- The smaller operand, the first of two equal ones; an operand that is not a
number gives way to the other. -/
@[inline] def min (x y : α) : α := if isNumber x then if lt y x then y else x else y

@[inline] def max (x y : α) : α := if isNumber x then if lt x y then y else x else y

@[inline] def abs (x : α) : α := max x (-x)

@[inline] def ceil (x : α) : Int := -floor (-x)

end Scalar

instance : Scalar Float where
  lt x y := x < y
  le x y := x ≤ y
  ofInt := Float.ofInt
  floor := Binary64.floor

instance : Geometric Float where
  sqrt := Float.sqrt
  sin := Float.sin
  cos := Float.cos
  pi := 3.141592653589793

end Arbor
