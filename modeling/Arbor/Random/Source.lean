import Arbor.Scalar

/-! # Sources of uniform draws

A source hands out scalars, meant to lie in the unit interval, and the source
that is left. Draws from other ranges are computed from one unit draw.
-/

namespace Arbor

/-- Something that uniform draws can be taken from. -/
class RandomSource (ρ α : Type) where
  /-- One draw from the unit interval, and the source after it. -/
  draw : ρ → α × ρ

namespace RandomSource

variable {ρ α : Type} [Scalar α]

/-- The scalar of `[low, high)` at a place of the unit interval. -/
@[inline] def between (low high u : α) : α := u * (high - low) + low

@[inline] def intBetween (low high : Int) (u : α) : Int :=
  Scalar.floor (u * Scalar.ofInt (high - low)) + low

@[inline] def drawBetween [RandomSource ρ α] (low high : α) (source : ρ) : α × ρ :=
  let (u, rest) := draw source
  (between low high u, rest)

@[inline] def drawInt (α : Type) [Scalar α] [RandomSource ρ α] (low high : Int) (source : ρ) :
    Int × ρ :=
  let (u, rest) := draw (α := α) source
  (intBetween low high u, rest)

end RandomSource

/-- A source that repeats fixed draws and counts how many were taken. -/
structure Script (α : Type) where
  draws : Array α
  calls : Nat

instance {α : Type} [Zero α] : RandomSource (Script α) α where
  draw s := (s.draws.getD (s.calls % s.draws.size) 0, { s with calls := s.calls + 1 })

end Arbor
