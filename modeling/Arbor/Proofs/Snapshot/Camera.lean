import Arbor.Camera
import Arbor.Proofs.Vec3.Products

/-! # The view plane of a camera

In exact arithmetic the two directions of the view plane and the direction of the view are
orthogonal unit vectors, unless a camera looks straight up or down. So no picture shows a distance
larger than it is, and what is higher in space is higher in a picture.
-/

namespace Arbor.Camera

open Vec3
open scoped Trigonometry

section Trigonometry

variable [t : Trigonometry]

/-- The directions of the view plane and of the view are unit vectors, each orthogonal to the
others. -/
structure Orthonormal (c : Camera ℝ) (view : Vec3 ℝ) : Prop where
  length_view : view.length = 1
  length_right : c.right.length = 1
  length_up : c.up.length = 1
  right_dot_up : c.right.dot c.up = 0
  right_dot_view : c.right.dot view = 0
  up_dot_view : c.up.dot view = 0

/-! ## Places in the view plane -/

section Place

variable {c : Camera ℝ} {view : Vec3 ℝ}

noncomputable def planeDistance (a b : ℝ × ℝ) : ℝ := √((a.1 - b.1) ^ 2 + (a.2 - b.2) ^ 2)

theorem project_real (c : Camera ℝ) (p : Vec3 ℝ) :
    c.project p = ((p - c.target).dot c.right, (p - c.target).dot c.up) :=
  rfl

theorem project_add (c : Camera ℝ) (p v : Vec3 ℝ) :
    c.project (p + v) = ((c.project p).1 + v.dot c.right, (c.project p).2 + v.dot c.up) := by
  simp only [project_real, sub_dot, add_dot]
  congr 1 <;> ring

theorem project_sub (c : Camera ℝ) (p q : Vec3 ℝ) :
    (c.project p).1 - (c.project q).1 = (p - q).dot c.right ∧
      (c.project p).2 - (c.project q).2 = (p - q).dot c.up := by
  simp only [project_real, sub_dot]
  constructor <;> ring

namespace Orthonormal

theorem project_add_view (h : c.Orthonormal view) (p : Vec3 ℝ) (s : ℝ) :
    c.project (p + view.scale s) = c.project p := by
  rw [project_add, scale_dot, scale_dot, view.dot_comm, view.dot_comm, h.right_dot_view,
    h.up_dot_view, zero_mul, add_zero, add_zero]

theorem planeDistance_project_le (h : c.Orthonormal view) (p q : Vec3 ℝ) :
    planeDistance (c.project p) (c.project q) ≤ (p - q).length := by
  obtain ⟨hright, hup⟩ := c.project_sub p q
  rw [planeDistance, hright, hup, Real.sqrt_le_iff, length_sq]
  exact ⟨length_nonneg _,
    sq_dot_add_sq_dot_le h.length_right h.length_up h.right_dot_up (p - q)⟩

end Orthonormal

end Place

/-! ## Cameras that look at a target -/

section LookingAt

variable {v : Vec3 ℝ}

theorem up_dot (v : Vec3 ℝ) : Vec3.up.dot v = v.y := by
  change 0 * v.x + 1 * v.y + 0 * v.z = v.y
  ring

theorem cross_up (v : Vec3 ℝ) : v.cross Vec3.up = ⟨-v.z, 0, v.x⟩ := by
  change (⟨v.y * 0 - v.z * 1, v.z * 0 - v.x * 0, v.x * 1 - v.y * 0⟩ : Vec3 ℝ) = _
  simp only [mul_zero, mul_one, zero_sub, sub_zero]

section Slanted

variable (h : v.x ≠ 0 ∨ v.z ≠ 0)

include h

omit t in
theorem horizontal_pos : 0 < v.x ^ 2 + v.z ^ 2 := by
  rcases h with h | h <;> positivity

theorem dot_self_pos : 0 < v.dot v := by
  have hpos := horizontal_pos h
  rw [dot_real]
  linarith [mul_self_nonneg v.y]

theorem dot_self_cross_up_pos : 0 < (v.cross Vec3.up).dot (v.cross Vec3.up) := by
  rw [cross_up]
  exact dot_self_pos (h.symm.imp_left neg_ne_zero.mpr)

theorem normalize_slanted : v.normalize.x ≠ 0 ∨ v.normalize.z ≠ 0 := by
  have hpos := dot_self_pos h
  have hscale := (one_div_pos.mpr (length_pos hpos)).ne'
  rw [normalize_eq_scale hpos]
  exact h.imp (mul_ne_zero · hscale) (mul_ne_zero · hscale)

theorem right_y_up_y :
    let right := (v.cross Vec3.up).normalize
    right.y = 0 ∧ 0 < (right.cross v).y := by
  intro right
  have hpos := dot_self_cross_up_pos h
  obtain ⟨r, hr, hright⟩ : ∃ r, 0 < r ∧ right = (v.cross Vec3.up).scale r :=
    ⟨_, one_div_pos.mpr (length_pos hpos), normalize_eq_scale hpos⟩
  rw [hright, cross_up, scale_real, cross_real]
  constructor
  · exact zero_mul r
  · calc 0 < (v.x ^ 2 + v.z ^ 2) * r := mul_pos (horizontal_pos h) hr
      _ = v.x * r * v.x - -v.z * r * v.z := by ring

end Slanted

theorem orthonormal_lookingAt (target : Vec3 ℝ) {offset : Vec3 ℝ}
    (h : (-offset).x ≠ 0 ∨ (-offset).z ≠ 0) :
    (lookingAt target offset).Orthonormal (-offset).normalize := by
  have hview : (-offset).normalize.length = 1 := length_normalize_of_dot_pos (dot_self_pos h)
  have hpos := dot_self_cross_up_pos (normalize_slanted h)
  have hright : (lookingAt target offset).right.length = 1 := length_normalize_of_dot_pos hpos
  have horthogonal : (lookingAt target offset).right.dot (-offset).normalize = 0 := by
    change ((-offset).normalize.cross Vec3.up).normalize.dot (-offset).normalize = 0
    rw [normalize_eq_scale hpos, scale_dot, cross_dot_left, zero_mul]
  exact {
    length_view := hview
    length_right := hright
    length_up := length_cross hright hview horthogonal
    right_dot_up := (dot_comm _ _).trans (cross_dot_left _ _)
    right_dot_view := horthogonal
    up_dot_view := cross_dot_right _ _ }

theorem right_cross_up (target : Vec3 ℝ) {offset : Vec3 ℝ}
    (h : (-offset).x ≠ 0 ∨ (-offset).z ≠ 0) :
    (lookingAt target offset).right.cross (lookingAt target offset).up =
      -(-offset).normalize := by
  have hortho := orthonormal_lookingAt target h
  change (lookingAt target offset).right.cross
    ((lookingAt target offset).right.cross (-offset).normalize) = _
  rw [cross_cross, hortho.right_dot_view, (length_eq_one_iff _).mp hortho.length_right]
  simp only [scale_real, sub_real, mul_zero, mul_one, zero_sub]
  rfl

/-- A camera that does not look straight up or down has orthogonal unit vectors for its view plane
and its view, and is upright: its right is horizontal and its up leads upwards, so what is moved
upwards moves straight up in the picture. What is moved along the view stays in its place, and
no distance appears larger than it is. -/
theorem lookingAt_is_upright (target : Vec3 ℝ) {offset : Vec3 ℝ}
    (h : offset.x ≠ 0 ∨ offset.z ≠ 0) :
    let c := lookingAt target offset
    let view := (-offset).normalize
    view.scale (-offset).length = -offset ∧ c.Orthonormal view ∧
    c.right.cross c.up = -view ∧ c.right.y = 0 ∧
    (∀ (p : Vec3 ℝ) (s : ℝ), 0 < s →
      (c.project (p + Vec3.up.scale s)).1 = (c.project p).1 ∧
      (c.project p).2 < (c.project (p + Vec3.up.scale s)).2) ∧
    (∀ (p : Vec3 ℝ) (s : ℝ), c.project (p + view.scale s) = c.project p) ∧
    ∀ p q : Vec3 ℝ, planeDistance (c.project p) (c.project q) ≤ (p - q).length := by
  intro c view
  have hneg : (-offset).x ≠ 0 ∨ (-offset).z ≠ 0 := h.imp neg_ne_zero.mpr neg_ne_zero.mpr
  have hortho : c.Orthonormal view := orthonormal_lookingAt target hneg
  obtain ⟨hright, hup⟩ : c.right.y = 0 ∧ 0 < c.up.y := right_y_up_y (normalize_slanted hneg)
  refine ⟨scale_length_normalize (dot_self_pos hneg), hortho, right_cross_up target hneg, hright,
    fun p s hs => ?_, hortho.project_add_view, hortho.planeDistance_project_le⟩
  rw [project_add, scale_dot, scale_dot, up_dot, up_dot, hright, zero_mul, add_zero]
  exact ⟨rfl, lt_add_of_pos_right _ (mul_pos hup hs)⟩

end LookingAt

end Trigonometry

theorem lookingAt_is_upright_quarterView :
    letI := Trigonometry.real
    let c : Camera ℝ := lookingAt Vec3.zero quarterView
    let view : Vec3 ℝ := (-quarterView).normalize
    ((quarterView : Vec3 ℝ).x ≠ 0 ∨ (quarterView : Vec3 ℝ).z ≠ 0) ∧ (0 : ℝ) < 1 ∧
    c.Orthonormal view ∧
    (c.project Vec3.zero).2 < (c.project (Vec3.zero + Vec3.up.scale 1)).2 := by
  let _ := Trigonometry.real
  intro c view
  have hx : (quarterView : Vec3 ℝ).x ≠ 0 ∨ (quarterView : Vec3 ℝ).z ≠ 0 := by
    refine Or.inl ?_
    change (0.3 : ℝ) ≠ 0
    norm_num
  obtain ⟨-, hortho, -, -, hup, -⟩ := lookingAt_is_upright Vec3.zero hx
  exact ⟨hx, one_pos, hortho, (hup Vec3.zero 1 one_pos).2⟩

end Arbor.Camera
