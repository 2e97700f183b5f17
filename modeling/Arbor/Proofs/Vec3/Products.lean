import Arbor.Proofs.Vec3.Unit

/-! # Inner and outer products

The identities of the two products in exact arithmetic, and the unit vector of a direction.
-/

namespace Arbor.Vec3

open scoped Trigonometry

variable [t : Trigonometry]

theorem cross_real (a b : Vec3 ℝ) :
    a.cross b = ⟨a.y * b.z - a.z * b.y, a.z * b.x - a.x * b.z, a.x * b.y - a.y * b.x⟩ :=
  rfl

theorem dot_comm (a b : Vec3 ℝ) : a.dot b = b.dot a := by
  simp only [dot_real]
  ring

theorem add_dot (a b c : Vec3 ℝ) : (a + b).dot c = a.dot c + b.dot c := by
  simp only [dot_real, add_real]
  ring

theorem sub_dot (a b c : Vec3 ℝ) : (a - b).dot c = a.dot c - b.dot c := by
  simp only [dot_real, sub_real]
  ring

theorem scale_dot (a b : Vec3 ℝ) (r : ℝ) : (a.scale r).dot b = a.dot b * r := by
  simp only [dot_real, scale_real]
  ring

theorem cross_dot_left (a b : Vec3 ℝ) : (a.cross b).dot a = 0 := by
  simp only [dot_real, cross_real]
  ring

theorem cross_dot_right (a b : Vec3 ℝ) : (a.cross b).dot b = 0 := by
  simp only [dot_real, cross_real]
  ring

/-- Lagrange's identity. -/
theorem cross_dot_cross (a b : Vec3 ℝ) :
    (a.cross b).dot (a.cross b) = a.dot a * b.dot b - a.dot b ^ 2 := by
  simp only [dot_real, cross_real]
  ring

theorem cross_cross (a b : Vec3 ℝ) :
    a.cross (a.cross b) = a.scale (a.dot b) - b.scale (a.dot a) := by
  simp only [dot_real, cross_real, scale_real, sub_real]
  congr 1 <;> ring

theorem length_cross {a b : Vec3 ℝ} (ha : a.length = 1) (hb : b.length = 1) (h : a.dot b = 0) :
    (a.cross b).length = 1 := by
  rw [length_eq_one_iff] at ha hb ⊢
  rw [cross_dot_cross, ha, hb, h]
  norm_num

theorem dot_self_sub_scale (v a : Vec3 ℝ) (r : ℝ) :
    (v - a.scale r).dot (v - a.scale r) = v.dot v - 2 * r * v.dot a + r ^ 2 * a.dot a := by
  simp only [dot_real, scale_real, sub_real]
  ring

/-- Two coordinates of a vector, along orthogonal unit vectors, are no longer than the vector. -/
theorem sq_dot_add_sq_dot_le {a b : Vec3 ℝ} (ha : a.length = 1) (hb : b.length = 1)
    (h : a.dot b = 0) (v : Vec3 ℝ) : v.dot a ^ 2 + v.dot b ^ 2 ≤ v.dot v := by
  rw [length_eq_one_iff] at ha hb
  -- What is left of the vector without its two coordinates has a length too.
  have hrest := dot_self_nonneg (v - a.scale (v.dot a) - b.scale (v.dot b))
  rw [dot_self_sub_scale, dot_self_sub_scale, sub_dot, scale_dot, ha, hb, h] at hrest
  linarith

/-! ## Scaling to unit length -/

section Normalize

variable {v : Vec3 ℝ} (h : 0 < v.dot v)

include h

theorem length_pos : 0 < v.length := by
  refine (length_nonneg v).lt_of_ne' fun hzero => h.ne' ?_
  rw [← length_sq, hzero, zero_pow two_ne_zero]

theorem normalize_eq_scale : v.normalize = v.scale (1 / v.length) :=
  if_pos (decide_eq_true (length_pos h))

theorem length_normalize_of_dot_pos : v.normalize.length = 1 := by
  have hpos := length_pos h
  rw [normalize_eq_scale h, length_scale, abs_of_pos (one_div_pos.mpr hpos),
    mul_one_div_cancel hpos.ne']

theorem scale_length_normalize : v.normalize.scale v.length = v := by
  have hcoord (x : ℝ) : x * (1 / v.length) * v.length = x := by
    rw [mul_assoc, one_div_mul_cancel (length_pos h).ne', mul_one]
  rw [normalize_eq_scale h]
  simp only [scale_real, hcoord]

end Normalize

end Arbor.Vec3
