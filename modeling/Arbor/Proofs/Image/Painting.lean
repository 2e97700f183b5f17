import Arbor.Image
import Mathlib.Data.List.Induction

/-! # Painting

Painting some places changes the pixels that hold one of them, to one color, and leaves all other
pixels as they are.
-/

namespace Arbor.Image

section Grid

variable {img : Image} {p : Pixel} {width height x y i j : Nat}

theorem index_eq_iff (hx : x < width) (hi : i < width) :
    y * width + x = j * width + i ↔ x = i ∧ y = j := by
  constructor
  · intro h
    have hxi : x = i := by
      have hmod := congrArg (· % width) h
      simpa only [Nat.mul_add_mod_self_right, Nat.mod_eq_of_lt hx, Nat.mod_eq_of_lt hi] using hmod
    subst hxi
    exact ⟨rfl, Nat.eq_of_mul_eq_mul_right (by omega) (Nat.add_right_cancel h)⟩
  · rintro ⟨rfl, rfl⟩
    rfl

theorem index_lt (hx : x < width) (hy : y < height) : y * width + x < width * height := by
  calc y * width + x < (y + 1) * width := by rw [Nat.succ_mul]; omega
    _ ≤ height * width := Nat.mul_le_mul_right width hy
    _ = width * height := Nat.mul_comm height width

theorem get?_eq_none_iff : img.get? x y = none ↔ ¬(x < img.width ∧ y < img.height) := by
  rw [get?]
  split
  · next h =>
    have hlt : y * img.width + x < img.pixels.size := img.size_pixels ▸ index_lt h.1 h.2
    simp [hlt, h]
  · next h => simp only [h, not_false_eq_true]

@[simp] theorem width_set : (img.set x y p).width = img.width := by
  unfold set
  split <;> rfl

@[simp] theorem height_set : (img.set x y p).height = img.height := by
  unfold set
  split <;> rfl

theorem get?_set :
    (img.set x y p).get? i j =
      if x = i ∧ y = j then (img.get? i j).map fun _ => p else img.get? i j := by
  by_cases hxy : x < img.width ∧ y < img.height
  · by_cases hij : i < img.width ∧ j < img.height
    · have hlt : j * img.width + i < img.pixels.size := img.size_pixels ▸ index_lt hij.1 hij.2
      have hindex := index_eq_iff (y := y) (j := j) hxy.1 hij.1
      by_cases h : x = i ∧ y = j
      · obtain ⟨rfl, rfl⟩ := h
        simp [set, get?, hxy, hlt]
      · -- Pixels at different places stand at different indices.
        have hne := mt hindex.mp h
        simp only [set, get?, hxy, hij, and_self, if_true, if_neg h,
          Array.getElem?_setIfInBounds_ne hne]
    · have hnone : img.get? i j = none := get?_eq_none_iff.mpr hij
      have hset : (img.set x y p).get? i j = none :=
        get?_eq_none_iff.mpr (by rwa [width_set, height_set])
      simp [hnone, hset]
  · have hset : img.set x y p = img := if_neg hxy
    rw [hset]
    split
    · next h =>
      obtain ⟨rfl, rfl⟩ := h
      simp [get?_eq_none_iff.mpr hxy]
    · rfl

end Grid

section Painting

variable {α : Type} [Scalar α] {img : Image} {c : Color} {x y : Nat}

def covers (places : List (α × α)) (x y : Nat) : Bool :=
  places.any fun p => cell? p.1 = some x ∧ cell? p.2 = some y

theorem covers_iff {places : List (α × α)} :
    covers places x y = true ↔ ∃ p ∈ places, cell? p.1 = some x ∧ cell? p.2 = some y := by
  simp [covers]

@[simp] theorem width_paint (p : α × α) : (img.paint c p).width = img.width := by
  unfold paint
  split
  · exact width_set
  · rfl

@[simp] theorem height_paint (p : α × α) : (img.paint c p).height = img.height := by
  unfold paint
  split
  · exact height_set
  · rfl

theorem get?_paint (p : α × α) :
    (img.paint c p).get? x y =
      if covers [p] x y then (img.get? x y).map fun _ => .ofColor c else img.get? x y := by
  unfold paint covers
  split
  · next hx hy => simp [get?_set, hx, hy]
  · next hnone =>
    refine (if_neg ?_).symm
    simp only [List.any_cons, List.any_nil, Bool.or_false, decide_eq_true_eq]
    rintro ⟨hx, hy⟩
    exact hnone _ _ hx hy

theorem paintAll_concat (places : List (α × α)) (p : α × α) :
    img.paintAll c (places ++ [p]) = (img.paintAll c places).paint c p := by
  simp only [paintAll, List.foldl_append, List.foldl_cons, List.foldl_nil]

theorem covers_append (places places' : List (α × α)) :
    covers (places ++ places') x y = (covers places x y || covers places' x y) := by
  simp only [covers, List.any_append]

@[simp] theorem width_paintAll (places : List (α × α)) :
    (img.paintAll c places).width = img.width := by
  induction places using List.reverseRecOn with
  | nil => rfl
  | append_singleton places p ih => rw [paintAll_concat, width_paint, ih]

@[simp] theorem height_paintAll (places : List (α × α)) :
    (img.paintAll c places).height = img.height := by
  induction places using List.reverseRecOn with
  | nil => rfl
  | append_singleton places p ih => rw [paintAll_concat, height_paint, ih]

theorem get?_paintAll (places : List (α × α)) :
    (img.paintAll c places).get? x y =
      if covers places x y then (img.get? x y).map fun _ => .ofColor c else img.get? x y := by
  induction places using List.reverseRecOn with
  | nil => rfl
  | append_singleton places p ih =>
    rw [paintAll_concat, get?_paint, ih, covers_append]
    cases covers places x y <;> cases covers [p] x y <;> simp [Function.comp_def]

end Painting

end Arbor.Image
