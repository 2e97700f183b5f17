import Mathlib
import Arbor.Proofs.Exact
import Arbor.Vec3

/-! # Unit vectors

Lengths in exact arithmetic, with any functions in the place of sine, cosine and square root that
obey the laws of the unit circle and of squares.
-/

namespace Arbor

/-- Functions on the real numbers that a turtle can compute headings with. -/
class Trigonometry where
  sqrt : ℝ → ℝ
  sin : ℝ → ℝ
  cos : ℝ → ℝ
  pi : ℝ
  sqrt_nonneg (x : ℝ) : 0 ≤ x → 0 ≤ sqrt x
  sqrt_sq (x : ℝ) : 0 ≤ x → sqrt x ^ 2 = x
  sin_sq_add_cos_sq (x : ℝ) : sin x ^ 2 + cos x ^ 2 = 1

namespace Trigonometry

noncomputable scoped instance [t : Trigonometry] : Geometric ℝ where
  __ := Scalar.exact ℝ
  sqrt := t.sqrt
  sin := t.sin
  cos := t.cos
  pi := t.pi

@[reducible] noncomputable def real : Trigonometry where
  sqrt := Real.sqrt
  sin := Real.sin
  cos := Real.cos
  pi := Real.pi
  sqrt_nonneg x _ := Real.sqrt_nonneg x
  sqrt_sq _ h := Real.sq_sqrt h
  sin_sq_add_cos_sq := Real.sin_sq_add_cos_sq

end Trigonometry

namespace Vec3

open scoped Trigonometry

variable [t : Trigonometry]

theorem add_real (a b : Vec3 ℝ) : a + b = ⟨a.x + b.x, a.y + b.y, a.z + b.z⟩ := rfl

theorem sub_real (a b : Vec3 ℝ) : a - b = ⟨a.x - b.x, a.y - b.y, a.z - b.z⟩ := rfl

theorem scale_real (a : Vec3 ℝ) (r : ℝ) : a.scale r = ⟨a.x * r, a.y * r, a.z * r⟩ := rfl

theorem dot_real (a b : Vec3 ℝ) : a.dot b = a.x * b.x + a.y * b.y + a.z * b.z := rfl

theorem dot_self_nonneg (v : Vec3 ℝ) : 0 ≤ v.dot v := by
  rw [dot_real]
  exact add_nonneg (add_nonneg (mul_self_nonneg _) (mul_self_nonneg _)) (mul_self_nonneg _)

theorem length_nonneg (v : Vec3 ℝ) : 0 ≤ v.length := t.sqrt_nonneg _ (dot_self_nonneg v)

theorem length_sq (v : Vec3 ℝ) : v.length ^ 2 = v.dot v := t.sqrt_sq _ (dot_self_nonneg v)

theorem length_eq_one_iff (v : Vec3 ℝ) : v.length = 1 ↔ v.dot v = 1 := by
  rw [← length_sq, pow_eq_one_iff_of_nonneg (length_nonneg v) two_ne_zero]

theorem length_scale (v : Vec3 ℝ) (r : ℝ) : (v.scale r).length = v.length * |r| := by
  have hdot : (v.scale r).dot (v.scale r) = v.dot v * r ^ 2 := by
    simp only [dot_real, scale_real]
    ring
  rw [← sq_eq_sq₀ (length_nonneg _) (mul_nonneg (length_nonneg v) (abs_nonneg r)), mul_pow,
    length_sq, length_sq, sq_abs, hdot]

theorem normalize_eq_self {v : Vec3 ℝ} (h : v.length = 1) : v.normalize = v := by
  have hlt : Scalar.lt 0 v.length = true := by
    rw [h]
    exact decide_eq_true zero_lt_one
  rw [normalize, if_pos hlt, h, scale_real]
  simp only [div_one, mul_one]

theorem length_ofSpherical (polar azimuth : ℝ) : (ofSpherical polar azimuth).length = 1 := by
  rw [length_eq_one_iff]
  change t.sin polar * t.cos azimuth * (t.sin polar * t.cos azimuth) + t.cos polar * t.cos polar +
    t.sin polar * t.sin azimuth * (t.sin polar * t.sin azimuth) = 1
  calc t.sin polar * t.cos azimuth * (t.sin polar * t.cos azimuth) + t.cos polar * t.cos polar +
        t.sin polar * t.sin azimuth * (t.sin polar * t.sin azimuth)
      = t.sin polar ^ 2 * (t.sin azimuth ^ 2 + t.cos azimuth ^ 2) + t.cos polar ^ 2 := by ring
    _ = 1 := by rw [t.sin_sq_add_cos_sq, mul_one, t.sin_sq_add_cos_sq]

theorem add_sub_cancel (v w : Vec3 ℝ) : v + w - v = w := by
  simp only [add_real, sub_real, add_sub_cancel_left]

end Vec3

end Arbor
