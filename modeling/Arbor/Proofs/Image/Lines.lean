import Mathlib
import Arbor.Proofs.Image.Painting
import Arbor.Proofs.Real

/-! # Lines without gaps

In exact arithmetic the places of a line divide it evenly, ends included, into steps that are no
longer than a pixel. So the pixels that hold them touch one after the other.
-/

namespace Arbor

open scoped Exact

variable {a b p q : ℝ × ℝ} {x y : ℝ}

/-! ## Places -/

theorem dist_eq_longerSide (a b : ℝ × ℝ) : dist a b = max |b.1 - a.1| |b.2 - a.2| := by
  rw [dist_comm, Prod.dist_eq, Real.dist_eq, Real.dist_eq]

theorem lineSteps_real (a b : ℝ × ℝ) : lineSteps a b = max 1 ⌈dist a b⌉₊ := by
  rw [lineSteps, dist_eq_longerSide, Scalar.ceil_exact, Scalar.max_exact, Scalar.abs_exact,
    Scalar.abs_exact, Int.ceil_toNat]

theorem lineSteps_pos (a b : ℝ × ℝ) : (0 : ℝ) < lineSteps a b := by
  rw [lineSteps_real]
  exact_mod_cast Nat.lt_of_lt_of_le Nat.one_pos (le_max_left _ _)

theorem dist_le_lineSteps (a b : ℝ × ℝ) : dist a b ≤ lineSteps a b := by
  rw [lineSteps_real]
  exact (Nat.le_ceil _).trans (Nat.cast_le.mpr (le_max_right _ _))

theorem linePlaces_real (a b : ℝ × ℝ) :
    linePlaces a b = (List.range (lineSteps a b + 1)).map fun i : ℕ =>
      AffineMap.lineMap a b ((i : ℝ) / lineSteps a b) := by
  refine List.map_congr_left fun i _ => ?_
  have hcast (n : ℕ) : (Scalar.ofInt n : ℝ) = n := Int.cast_natCast n
  rw [AffineMap.lineMap_apply_module', hcast, hcast]
  ext
  · exact (add_comm _ _).trans (congrArg (· + a.1) (mul_comm _ _))
  · exact (add_comm _ _).trans (congrArg (· + a.2) (mul_comm _ _))

theorem length_linePlaces (a b : ℝ × ℝ) : (linePlaces a b).length = lineSteps a b + 1 := by
  rw [linePlaces_real, List.length_map, List.length_range]

theorem head?_linePlaces (a b : ℝ × ℝ) : (linePlaces a b).head? = some a := by
  rw [linePlaces_real, List.head?_map, List.head?_range, if_neg (Nat.succ_ne_zero _)]
  simp

theorem getLast?_linePlaces (a b : ℝ × ℝ) : (linePlaces a b).getLast? = some b := by
  rw [linePlaces_real, List.getLast?_map, List.getLast?_range, if_neg (Nat.succ_ne_zero _)]
  simp [div_self (lineSteps_pos a b).ne']

theorem mem_segment_of_mem_linePlaces (h : p ∈ linePlaces a b) : p ∈ segment ℝ a b := by
  rw [linePlaces_real, List.mem_map] at h
  obtain ⟨i, hi, rfl⟩ := h
  have hle : (i : ℝ) ≤ lineSteps a b := by
    exact_mod_cast Nat.lt_succ_iff.mp (List.mem_range.mp hi)
  rw [segment_eq_image_lineMap]
  exact Set.mem_image_of_mem _
    ⟨div_nonneg i.cast_nonneg (lineSteps_pos a b).le, div_le_one_of_le₀ hle (lineSteps_pos a b).le⟩

theorem isChain_linePlaces (a b : ℝ × ℝ) :
    (linePlaces a b).IsChain fun p q => dist p q ≤ 1 := by
  rw [linePlaces_real, List.isChain_map, List.isChain_range_succ]
  intro i _
  have hpos := lineSteps_pos a b
  have hstep : dist ((i : ℝ) / lineSteps a b) ((i.succ : ℕ) / lineSteps a b) =
      1 / lineSteps a b := by
    rw [dist_comm, Real.dist_eq, ← sub_div, Nat.cast_succ, add_sub_cancel_left,
      abs_of_pos (one_div_pos.mpr hpos)]
  rw [dist_lineMap_lineMap, hstep, one_div_mul_eq_div, div_le_one hpos]
  exact dist_le_lineSteps a b

/-! ## Pixels -/

namespace Image

noncomputable def pixelOf (p : ℝ × ℝ) : ℕ × ℕ := (⌊p.1⌋₊, ⌊p.2⌋₊)

def extent (img : Image) : Set (ℝ × ℝ) := Set.Ico 0 (img.width : ℝ) ×ˢ Set.Ico 0 (img.height : ℝ)

/-- Pixels that are the same or share a side or a corner. -/
def Touching (p q : ℕ × ℕ) : Prop :=
  (p.1 ≤ q.1 + 1 ∧ q.1 ≤ p.1 + 1) ∧ p.2 ≤ q.2 + 1 ∧ q.2 ≤ p.2 + 1

theorem convex_extent (img : Image) : Convex ℝ img.extent :=
  (convex_Ico _ _).prod (convex_Ico _ _)

theorem floor_le_floor_add_one (h : x ≤ y + 1) : ⌊x⌋₊ ≤ ⌊y⌋₊ + 1 := by
  have hy := Nat.lt_floor_add_one y
  have hx : ⌊x⌋₊ < ⌊y⌋₊ + 2 := (Nat.floor_lt' (by omega)).mpr (by push_cast; linarith)
  omega

theorem touching_pixelOf (h : dist p q ≤ 1) : Touching (pixelOf p) (pixelOf q) := by
  rw [Prod.dist_eq, max_le_iff, Real.dist_eq, Real.dist_eq, abs_le, abs_le] at h
  obtain ⟨⟨hleft, hright⟩, hup, hdown⟩ := h
  refine ⟨⟨?_, ?_⟩, ?_, ?_⟩ <;> apply floor_le_floor_add_one <;> linarith

theorem cell?_real (h : 0 ≤ x) : cell? x = some ⌊x⌋₊ := by
  have hlt : Scalar.lt x 0 = false := decide_eq_false h.not_gt
  rw [cell?, hlt, if_neg Bool.false_ne_true, ← Int.floor_toNat]
  rfl

theorem covers_real {places : List (ℝ × ℝ)} {i j : ℕ}
    (h : ∀ p ∈ places, 0 ≤ p.1 ∧ 0 ≤ p.2) :
    covers places i j = true ↔ (i, j) ∈ places.map pixelOf := by
  rw [covers_iff, List.mem_map]
  refine exists_congr fun p => and_congr_right fun hp => ?_
  rw [cell?_real (h p hp).1, cell?_real (h p hp).2, pixelOf, Prod.mk.injEq, Option.some_inj,
    Option.some_inj]

variable {img : Image}

theorem get?_pixelOf (h : p ∈ img.extent) :
    ∃ pixel, img.get? (pixelOf p).1 (pixelOf p).2 = some pixel := by
  refine Option.ne_none_iff_exists'.mp fun hnone => get?_eq_none_iff.mp hnone ?_
  exact ⟨(Nat.floor_lt h.1.1).mpr h.1.2, (Nat.floor_lt h.2.1).mpr h.2.2⟩

theorem get?_paintAll_real {places : List (ℝ × ℝ)} (c : Color) (i j : ℕ)
    (h : ∀ p ∈ places, p ∈ img.extent) :
    (img.paintAll c places).get? i j =
      if (i, j) ∈ places.map pixelOf then some (.ofColor c) else img.get? i j := by
  rw [get?_paintAll, if_congr (covers_real fun p hp => ⟨(h p hp).1.1, (h p hp).2.1⟩) rfl rfl]
  split
  · next hmem =>
    obtain ⟨p, hp, heq⟩ := List.mem_map.mp hmem
    obtain ⟨pixel, hpixel⟩ := get?_pixelOf (h p hp)
    rw [heq] at hpixel
    rw [hpixel, Option.map_some]
  · rfl

end Image

open Image

/-- The places of a line lie on it, from its first end to its last. Their number is one more than
its longer side rounded up, and at least two, and places that follow each other are no further
apart than a pixel along both sides. So if they all lie in an image, painting them changes a chain
of pixels, each touching the next, from that of the first end to that of the last. -/
theorem line_has_no_gaps (a b : ℝ × ℝ) :
    (linePlaces a b).head? = some a ∧ (linePlaces a b).getLast? = some b ∧
    ((linePlaces a b).length : ℤ) = 1 + max 1 ⌈max |b.1 - a.1| |b.2 - a.2|⌉ ∧
    (∀ p ∈ linePlaces a b, p ∈ segment ℝ a b) ∧
    (linePlaces a b).IsChain (fun p q => |q.1 - p.1| ≤ 1 ∧ |q.2 - p.2| ≤ 1) ∧
    ∀ (img : Image) (c : Color), (∀ p ∈ linePlaces a b, p ∈ img.extent) →
      let pixels := (linePlaces a b).map pixelOf
      pixels.head? = some (pixelOf a) ∧ pixels.getLast? = some (pixelOf b) ∧
      pixels.IsChain Touching ∧
      ∀ i j, (img.paintAll c (linePlaces a b)).get? i j =
        if (i, j) ∈ pixels then some (.ofColor c) else img.get? i j := by
  have hlength : ((linePlaces a b).length : ℤ) = 1 + max 1 ⌈max |b.1 - a.1| |b.2 - a.2|⌉ := by
    rw [length_linePlaces, lineSteps_real, ← dist_eq_longerSide, Nat.cast_succ, Nat.cast_max,
      Int.natCast_ceil_eq_ceil dist_nonneg, Nat.cast_one, add_comm]
  have hclose : (linePlaces a b).IsChain (fun p q => |q.1 - p.1| ≤ 1 ∧ |q.2 - p.2| ≤ 1) := by
    refine (isChain_linePlaces a b).imp fun p q h => ?_
    rwa [dist_eq_longerSide, max_le_iff] at h
  refine ⟨head?_linePlaces a b, getLast?_linePlaces a b, hlength,
    fun p => mem_segment_of_mem_linePlaces, hclose, fun img c himg => ⟨?_, ?_, ?_, ?_⟩⟩
  · rw [List.head?_map, head?_linePlaces, Option.map_some]
  · rw [List.getLast?_map, getLast?_linePlaces, Option.map_some]
  · rw [List.isChain_map]
    exact (isChain_linePlaces a b).imp fun p q => touching_pixelOf
  · exact fun i j => get?_paintAll_real c i j himg

theorem line_has_no_gaps_sloping :
    let img := Image.filled 3 2 default
    let places := linePlaces ((1 / 2, 1 / 2) : ℝ × ℝ) (5 / 2, 3 / 2)
    (∀ p ∈ places, p ∈ img.extent) ∧ places.length = 3 ∧
      (places.map pixelOf).IsChain Touching ∧
      (img.paintAll .red places).get? 2 1 = some (.ofColor .red) := by
  intro img places
  obtain ⟨-, -, hlength, hsegment, -, hpixels⟩ := line_has_no_gaps (1 / 2, 1 / 2) (5 / 2, 3 / 2)
  have hinside : ∀ p ∈ places, p ∈ img.extent := by
    intro p hp
    refine img.convex_extent.segment_subset ?_ ?_ (hsegment p hp) <;>
      norm_num [img, Image.extent, filled]
  obtain ⟨-, hlast, hchain, hpaint⟩ := hpixels img .red hinside
  have hend : pixelOf (5 / 2, 3 / 2) = (2, 1) := by norm_num [pixelOf, Nat.floor_eq_iff]
  have hside : max |(5 / 2 : ℝ) - 1 / 2| |3 / 2 - 1 / 2| = 2 := by norm_num
  refine ⟨hinside, ?_, hchain, ?_⟩
  · rw [hside, Int.ceil_ofNat] at hlength
    exact_mod_cast hlength
  · rw [hpaint, if_pos (hend ▸ List.mem_of_getLast? hlast)]

end Arbor
