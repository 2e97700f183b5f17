import Arbor.Scalar
import Mathlib.Data.Rat.Floor

/-! # Exact arithmetic

The scalars of an ordered field in which every number can be rounded down. Nothing is lost to
rounding there, and every scalar is a number.
-/

namespace Arbor.Scalar

section Field

variable {α : Type} [Field α] [LinearOrder α] [FloorRing α]

@[reducible] def exact (α : Type) [Field α] [LinearOrder α] [FloorRing α] : Scalar α where
  lt x y := decide (x < y)
  le x y := decide (x ≤ y)
  ofInt n := n
  floor x := ⌊x⌋

theorem min_exact (x y : α) : @Scalar.min α (exact α) x y = x ⊓ y := by
  change (if decide (x ≤ x) = true then if decide (y < x) = true then y else x else y) = x ⊓ y
  simp only [decide_eq_true_eq, le_refl, if_true]
  split
  · next h => exact (min_eq_right h.le).symm
  · next h => exact (min_eq_left (not_lt.mp h)).symm

theorem max_exact (x y : α) : @Scalar.max α (exact α) x y = x ⊔ y := by
  change (if decide (x ≤ x) = true then if decide (x < y) = true then y else x else y) = x ⊔ y
  simp only [decide_eq_true_eq, le_refl, if_true]
  split
  · next h => exact (max_eq_right h.le).symm
  · next h => exact (max_eq_left (not_lt.mp h)).symm

theorem abs_exact (x : α) : @Scalar.abs α (exact α) x = |x| :=
  max_exact x (-x)

theorem ceil_exact [IsStrictOrderedRing α] (x : α) : @Scalar.ceil α (exact α) x = ⌈x⌉ := by
  change -⌊-x⌋ = ⌈x⌉
  rw [Int.floor_neg, neg_neg]

end Field

instance : Scalar ℚ := exact ℚ

end Arbor.Scalar
