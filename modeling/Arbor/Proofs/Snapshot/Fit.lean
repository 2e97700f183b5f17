import Mathlib
import Arbor.Proofs.Event.Bounds
import Arbor.Proofs.Image.Lines
import Arbor.Snapshot

/-! # The fitted viewport

In exact arithmetic the viewport of a snapshot leaves a margin of a twentieth of the picture on
each side. All that is drawn lies between the margins: ends of events, corners of the ground and
the places of the lines between them.
-/

namespace Arbor.Snapshot

open scoped Exact

variable {events : List (Event ℝ)} {size : Nat} {ground : Bool} {c : Camera ℝ}
variable {ps : List (Vec3 ℝ)} {p : Vec3 ℝ} {x r half : ℝ}

theorem reach_concat (c : Camera ℝ) (ps : List (Vec3 ℝ)) (p : Vec3 ℝ) :
    reach c (ps ++ [p]) = max (max (reach c ps) |(c.project p).1|) |(c.project p).2| := by
  rw [← Scalar.abs_exact, ← Scalar.abs_exact, ← Scalar.max_exact, ← Scalar.max_exact]
  simp only [reach, List.foldl_append, List.foldl_cons, List.foldl_nil]

theorem reach_pos (c : Camera ℝ) (ps : List (Vec3 ℝ)) : 0 < reach c ps := by
  induction ps using List.reverseRecOn with
  | nil =>
    change (0 : ℝ) < 1e-6
    norm_num
  | append_singleton ps p ih =>
    rw [reach_concat]
    exact lt_max_of_lt_left (lt_max_of_lt_left ih)

theorem abs_project_le_reach (h : p ∈ ps) :
    |(c.project p).1| ≤ reach c ps ∧ |(c.project p).2| ≤ reach c ps := by
  induction ps using List.reverseRecOn with
  | nil => cases h
  | append_singleton ps q ih =>
    rw [reach_concat]
    rcases List.mem_append.mp h with h | h
    · obtain ⟨hx, hy⟩ := ih h
      exact ⟨le_max_of_le_left (le_max_of_le_left hx), le_max_of_le_left (le_max_of_le_left hy)⟩
    · obtain rfl := List.mem_singleton.mp h
      exact ⟨le_max_of_le_left (le_max_right _ _), le_max_right _ _⟩

/-- The part of a picture between its margins. -/
def inner (size : Nat) : Set (ℝ × ℝ) :=
  Set.Icc (0.05 * size : ℝ) (0.95 * size) ×ˢ Set.Icc (0.05 * size : ℝ) (0.95 * size)

theorem convex_inner (size : Nat) : Convex ℝ (inner size) :=
  (convex_Icc _ _).prod (convex_Icc _ _)

theorem inner_subset_extent {img : Image} (hsize : 1 ≤ size) (hw : img.width = size)
    (hh : img.height = size) : inner size ⊆ img.extent := by
  have hpos : (0 : ℝ) < size := by exact_mod_cast hsize
  rintro p ⟨⟨hleft, hright⟩, hup, hdown⟩
  rw [Image.extent, hw, hh]
  refine ⟨⟨?_, ?_⟩, ?_, ?_⟩ <;> linarith

theorem place_real (v : Viewport ℝ) (p : Vec3 ℝ) :
    v.place p = (v.half + (v.camera.project p).1 * v.scale,
      v.half - (v.camera.project p).2 * v.scale) :=
  rfl

theorem half_viewport (events : List (Event ℝ)) (size : Nat) (ground : Bool) :
    (viewport events size ground).half = size / 2 := by
  change ((size : ℤ) : ℝ) / ((2 : ℤ) : ℝ) = size / 2
  push_cast
  rfl

theorem scale_viewport (events : List (Event ℝ)) (size : Nat) (ground : Bool) :
    let v := viewport events size ground
    v.scale = v.half * 0.9 / reach v.camera (positions events ground) :=
  rfl

theorem abs_mul_scale_le (hx : |x| ≤ r) (hr : 0 < r) (hhalf : 0 ≤ half) :
    |x * (half * 0.9 / r)| ≤ half * 0.9 := by
  have hscale : 0 ≤ half * 0.9 := by positivity
  calc |x * (half * 0.9 / r)| = |x| * (half * 0.9) / r := by
        rw [abs_mul, abs_of_nonneg (div_nonneg hscale hr.le), ← mul_div_assoc]
    _ ≤ r * (half * 0.9) / r := by gcongr
    _ = half * 0.9 := mul_div_cancel_left₀ _ hr.ne'

/-- Every position that the viewport is fitted to has its place between the margins. -/
theorem place_mem_inner (hp : p ∈ positions events ground) :
    (viewport events size ground).place p ∈ inner size := by
  have hpos := reach_pos (viewport events size ground).camera (positions events ground)
  obtain ⟨hx, hy⟩ := abs_project_le_reach (c := (viewport events size ground).camera) hp
  have hhalf : (0 : ℝ) ≤ (viewport events size ground).half := by
    rw [half_viewport]
    positivity
  obtain ⟨hleft, hright⟩ := abs_le.mp (abs_mul_scale_le hx hpos hhalf)
  obtain ⟨hup, hdown⟩ := abs_le.mp (abs_mul_scale_le hy hpos hhalf)
  rw [place_real, scale_viewport]
  rw [half_viewport] at *
  refine ⟨⟨?_, ?_⟩, ?_, ?_⟩ <;> dsimp only <;> linarith

theorem extent_mem_positions {e : Event ℝ} (he : e ∈ events) :
    e.extent.1 ∈ positions events ground ∧ e.extent.2 ∈ positions events ground := by
  constructor <;> refine List.mem_append_left _ (List.mem_flatMap.mpr ⟨e, he, ?_⟩) <;> simp

theorem corner_mem_positions {corner : Vec3 ℝ} (h : corner ∈ groundCorners) :
    corner ∈ positions events true :=
  List.mem_append_right _ h

theorem line_subset_inner {a b q : ℝ × ℝ} (ha : a ∈ inner size) (hb : b ∈ inner size)
    (hq : q ∈ linePlaces a b) : q ∈ inner size :=
  (convex_inner size).segment_subset ha hb (mem_segment_of_mem_linePlaces hq)

theorem outline_subset_inner {q : ℝ × ℝ} (hq : q ∈ (viewport events size true).outline) :
    q ∈ inner size := by
  have hcorner : ∀ place ∈ groundCorners.map (viewport events size true).place,
      place ∈ inner size := by
    rintro _ hplace
    obtain ⟨corner, h, rfl⟩ := List.mem_map.mp hplace
    exact place_mem_inner (corner_mem_positions h)
  obtain ⟨⟨a, b⟩, hab, hq⟩ := List.mem_flatMap.mp hq
  obtain ⟨ha, hb⟩ := List.of_mem_zip hab
  refine line_subset_inner (hcorner a ha) (hcorner b ?_) hq
  rcases List.mem_append.mp hb with hb | hb
  · exact List.mem_of_mem_tail hb
  · exact List.mem_of_mem_take hb

theorem mem_dotPlaces (q : ℝ × ℝ) : q ∈ dotPlaces q := by
  have hzero (x : ℝ) : x + Scalar.ofInt 0 = x := by
    change x + ((0 : ℤ) : ℝ) = x
    rw [Int.cast_zero]
    exact add_zero x
  simp [dotPlaces, hzero]

/-- The ends of all events, the corners of the ground if it is drawn, and the places of all lines
lie between the margins of the picture. So each of them is painted in the pixel that holds it, and
a dot at least in the pixel of its center. -/
theorem fit_cuts_nothing_off (events : List (Event ℝ)) (layers : Layers) (hsize : 1 ≤ size) :
    let v := viewport events size layers.ground
    (∀ e ∈ events, v.place e.extent.1 ∈ inner size ∧ v.place e.extent.2 ∈ inner size) ∧
    (layers.ground = true → ∀ corner ∈ groundCorners, v.place corner ∈ inner size) ∧
    (∀ e ∈ events, e.isArrow = true → ∀ q ∈ v.footprint e, q ∈ inner size) ∧
    (∀ e ∈ events, e.isArrow = false → v.place e.extent.1 ∈ v.footprint e) ∧
    (layers.ground = true → ∀ q ∈ v.outline, q ∈ inner size) ∧
    ∀ q ∈ inner size, ∀ (img : Image) (c : Color), img.width = size → img.height = size →
      (img.paint c q).get? ⌊q.1⌋₊ ⌊q.2⌋₊ = some (.ofColor c) := by
  intro v
  have hends : ∀ e ∈ events, v.place e.extent.1 ∈ inner size ∧ v.place e.extent.2 ∈ inner size :=
    fun e he => ⟨place_mem_inner (extent_mem_positions he).1,
      place_mem_inner (extent_mem_positions he).2⟩
  refine ⟨hends, fun hground corner hcorner => ?_, fun e he harrow q hq => ?_,
    fun e _ hdot => ?_, fun hground q hq => ?_, fun q hq img c hw hh => ?_⟩
  · exact place_mem_inner (by rw [hground]; exact corner_mem_positions hcorner)
  · cases e with
    | arrow o d l color => exact line_subset_inner (hends _ he).1 (hends _ he).2 hq
    | _ => cases harrow
  · cases e with
    | arrow o d l color => cases hdot
    | _ => exact mem_dotPlaces _
  · simp only [v, hground] at hq
    exact outline_subset_inner hq
  · have himg : ∀ p ∈ [q], p ∈ img.extent :=
      List.forall_mem_singleton.mpr (inner_subset_extent hsize hw hh hq)
    exact (Image.get?_paintAll_real c _ _ himg).trans (if_pos (List.mem_singleton.mpr rfl))

theorem fit_cuts_nothing_off_segment :
    let e : Event ℝ := .arrow .zero .up 1 .yellow
    let q := (viewport [e] 1 true).place e.extent.2
    1 ≤ 1 ∧ e ∈ [e] ∧ e.isArrow = true ∧ q ∈ inner 1 ∧
      (∀ p ∈ (viewport [e] 1 true).footprint e, p ∈ inner 1) ∧
      ((Image.filled 1 1 background).paint .yellow q).get? ⌊q.1⌋₊ ⌊q.2⌋₊ =
        some (.ofColor .yellow) := by
  intro e q
  obtain ⟨hends, -, hlines, -, -, hpaint⟩ := fit_cuts_nothing_off [e] .all le_rfl
  have he : e ∈ [e] := List.mem_singleton.mpr rfl
  exact ⟨le_rfl, he, rfl, (hends e he).2, hlines e he rfl,
    hpaint q (hends e he).2 _ _ rfl rfl⟩

end Arbor.Snapshot
