import Arbor.Proofs.Binary64.Floor
import Arbor.Proofs.Generation.Range
import Arbor.Proofs.Image.Painting
import Arbor.Snapshot

/-! # Places outside an image

What lies outside an image is not painted, however far away it is. But an undefined number is
never below zero and is rounded down to zero, so that it passes for zero.
-/

namespace Arbor.Image

open Binary64 Float.Model

/-- Whether a number lies in one of the first `n` columns or rows. -/
def Within (n : ℕ) (x : Float) : Prop := 0 ≤ x ∧ x < Float.ofNat n

def orZero (x : Float) : Float := if x.isNaN then 0 else x

structure Holds (img : Image) (x y : ℕ) (p : Float × Float) : Prop where
  within_width : Within img.width p.1
  within_height : Within img.height p.2
  column : (x : ℤ) = ⌊value p.1⌋
  row : (y : ℤ) = ⌊value p.2⌋

/-- An image after some places are painted: the pixels that hold one of them have the color, and
all others are as they were. -/
structure Painted (img : Image) (c : Color) (places : List (Float × Float)) (img' : Image) :
    Prop where
  width : img'.width = img.width
  height : img'.height = img.height
  inside : ∀ x y, (∃ p ∈ places, img.Holds x y p) → img'.get? x y = some (.ofColor c)
  outside : ∀ x y, (∀ p ∈ places, ¬img.Holds x y p) → img'.get? x y = img.get? x y

section Cells

variable {n i : ℕ} {x : Float}

theorem within_iff : Within n x ↔ Scalar.le 0 x = true ∧ Scalar.lt x (Float.ofNat n) = true :=
  and_congr decide_eq_true_iff.symm decide_eq_true_iff.symm

theorem not_within (h : (!Scalar.le 0 x) = true) : ¬Within n x := by
  intro hw
  rw [(within_iff.mp hw).1] at h
  cases h

theorem not_within_of_unpack {s : UnpackedFloat.Sign} (hn : n < 2 ^ 53)
    (h : x.toModel.unpack = .infinity s) : ¬Within n x := by
  intro hw
  obtain ⟨h0, hlt⟩ := within_iff.mp hw
  have hfin := isFinite_of_le_of_lt isFinite_zero (ofNat_of_lt hn).1 h0 hlt
  rw [isFinite_eq_false_of_unpack h] at hfin
  cases hfin

theorem within_iff_of_isFinite (hn : n < 2 ^ 53) (h : x.isFinite = true) :
    Within n x ↔ 0 ≤ value x ∧ value x < n := by
  obtain ⟨hfin, hval⟩ := ofNat_of_lt hn
  rw [within_iff, le_iff isFinite_zero h, lt_iff h hfin, value_zero, hval]

theorem cell?_of_isFinite (h : x.isFinite = true) :
    cell? x = some i ↔ 0 ≤ value x ∧ (floor x).toNat = i := by
  have hlt : Scalar.lt x 0 = true ↔ value x < 0 := by rw [lt_iff h isFinite_zero, value_zero]
  unfold cell?
  split
  · next hneg => simp [(hlt.mp hneg).not_ge]
  · next hneg =>
    have h0 : 0 ≤ value x := not_lt.mp (mt hlt.mpr hneg)
    simp only [h0, true_and, Option.some.injEq]
    rfl

theorem cell?_lt_iff_of_isFinite (hn : n ≤ 2 ^ 32) (h : x.isFinite = true) :
    cell? x = some i ∧ i < n ↔ Within n x ∧ (i : ℤ) = ⌊value x⌋ := by
  rw [cell?_of_isFinite h, within_iff_of_isFinite (by omega) h, floor_of_isFinite h]
  have hnonneg : 0 ≤ value x ↔ 0 ≤ ⌊value x⌋ := Int.floor_nonneg.symm
  have hlt : value x < n ↔ ⌊value x⌋ < n := by rw [Int.floor_lt]; rfl
  have hmax : int64Max = 2 ^ 63 - 1 := rfl
  have hmin : int64Min = -2 ^ 63 := rfl
  rw [hnonneg, hlt, hmax, hmin]
  omega

theorem cell?_of_isNaN (h : x.isNaN = true) : cell? x = cell? (0 : Float) := by
  have hlt : Scalar.lt x 0 = false := Boundless.lt_eq_false (.inl (unpack_of_isNaN h)) 0
  have hfloor : Scalar.floor x = 0 := floor_of_isNaN h
  have hzero : cell? (0 : Float) = some 0 := by decide +kernel
  simp only [cell?, hlt, hfloor] at hzero ⊢
  exact hzero.symm

theorem not_cell?_lt_of_unpack {s : UnpackedFloat.Sign} (hn : n ≤ 2 ^ 32)
    (h : x.toModel.unpack = .infinity s) : ¬(cell? x = some i ∧ i < n) := by
  rintro ⟨hcell, hi⟩
  cases s with
  | positive =>
    have hlt : Scalar.lt x 0 = false := Boundless.lt_eq_false (.inr h) 0
    have hfloor : Scalar.floor x = 2 ^ 63 - 1 := floor_of_unpack h
    simp only [cell?, hlt, hfloor, Bool.false_eq_true, if_false, Option.some.injEq] at hcell
    omega
  | negative =>
    have hlt : Scalar.lt x 0 = true := by
      rw [lt_iff_compare, h]
      rfl
    simp [cell?, hlt] at hcell

/-- The check before the rounding and the one after it keep out all numbers that are out of
range, and no others. -/
theorem cell?_lt_iff (hn : n ≤ 2 ^ 32) (x : Float) :
    cell? x = some i ∧ i < n ↔ Within n (orZero x) ∧ (i : ℤ) = ⌊value (orZero x)⌋ := by
  unfold orZero
  split
  · next h =>
    rw [cell?_of_isNaN h]
    exact cell?_lt_iff_of_isFinite hn isFinite_zero
  · next hnan =>
    cases h : x.isFinite with
    | true => exact cell?_lt_iff_of_isFinite hn h
    | false =>
      obtain ⟨s, hs⟩ := unpack_of_not_isFinite h (Bool.not_eq_true _ ▸ hnan)
      exact iff_of_false (not_cell?_lt_of_unpack hn hs)
        fun hw => not_within_of_unpack (by omega) hs hw.1

end Cells

section Painting

variable {img : Image} {x y : ℕ}

theorem holds_iff (hw : img.width < 2 ^ 32) (hh : img.height < 2 ^ 32) (p : Float × Float) :
    img.Holds x y (p.map orZero orZero) ↔
      (cell? p.1 = some x ∧ cell? p.2 = some y) ∧ x < img.width ∧ y < img.height := by
  rw [and_and_and_comm, cell?_lt_iff hw.le, cell?_lt_iff hh.le]
  constructor
  · rintro ⟨hx, hy, hi, hj⟩
    exact ⟨⟨hx, hi⟩, hy, hj⟩
  · rintro ⟨⟨hx, hi⟩, hy, hj⟩
    exact ⟨hx, hy, hi, hj⟩

theorem painted_paintAll (hw : img.width < 2 ^ 32) (hh : img.height < 2 ^ 32) (c : Color)
    (places : List (Float × Float)) :
    img.Painted c (places.map (Prod.map orZero orZero)) (img.paintAll c places) where
  width := width_paintAll places
  height := height_paintAll places
  inside x y h := by
    obtain ⟨p, hp, hheld⟩ := h
    obtain ⟨p, hmem, rfl⟩ := List.mem_map.mp hp
    obtain ⟨hcells, hin⟩ := (holds_iff hw hh p).mp hheld
    obtain ⟨old, hold⟩ := Option.ne_none_iff_exists'.mp (mt get?_eq_none_iff.mp (not_not.mpr hin))
    rw [get?_paintAll, if_pos (covers_iff.mpr ⟨p, hmem, hcells⟩), hold]
    rfl
  outside x y h := by
    rw [get?_paintAll]
    split
    · next hcovers =>
      -- A place that is covered and not held lies in a pixel that the image does not have.
      obtain ⟨p, hmem, hcells⟩ := covers_iff.mp hcovers
      have hnone : img.get? x y = none := get?_eq_none_iff.mpr fun hin =>
        h _ (List.mem_map_of_mem hmem) ((holds_iff hw hh p).mpr ⟨hcells, hin⟩)
      rw [hnone]
      rfl
    · rfl

open Snapshot in
/-- In an image of fewer than `2 ^ 32` columns and rows, a place and the places of an event paint
the pixels that hold them and nothing else, infinite numbers being outside. An undefined number
counts as zero. -/
theorem paint_stays_inside (hw : img.width < 2 ^ 32) (hh : img.height < 2 ^ 32) :
    (∀ (c : Color) (p : Float × Float),
      img.Painted c [p.map orZero orZero] (img.paint c p)) ∧
    ∀ (v : Viewport Float) (e : Event Float),
      img.Painted e.color ((v.footprint e).map (Prod.map orZero orZero))
        (img.paintAll e.color (v.footprint e)) :=
  ⟨fun c p => painted_paintAll hw hh c [p],
    fun v e => painted_paintAll hw hh e.color (v.footprint e)⟩

end Painting

open Snapshot

theorem paint_stays_inside_filled :
    2 < 2 ^ 32 ∧
      ((filled 2 2 background).paint .red ((1.5 : Float), 0.25)).get? 1 0 =
        some (.ofColor .red) ∧
      ((filled 2 2 background).paint .red ((1.5 : Float), 2)).get? 1 1 = some background := by
  have hsize : 2 < 2 ^ 32 := by decide
  have hpaint := (@paint_stays_inside (filled 2 2 background) hsize hsize).1 .red
  refine ⟨hsize, (hpaint _).inside 1 0 ⟨_, List.mem_singleton_self _, ?_⟩,
    (hpaint _).outside 1 1 ?_⟩
  · have hcells : cell? (1.5 : Float) = some 1 ∧ cell? (0.25 : Float) = some 0 := by
      decide +kernel
    exact (holds_iff hsize hsize (1.5, 0.25)).mpr ⟨hcells, by decide, by decide⟩
  · intro p hp hheld
    rw [List.mem_singleton] at hp
    subst hp
    have hcell : cell? (2 : Float) ≠ some 1 := by decide +kernel
    exact hcell ((holds_iff hsize hsize ((1.5 : Float), 2)).mp hheld).1.2

/-- The arrows of a run that overflows have no place in the picture, and yet they paint a pixel
of it. -/
theorem undefined_places_are_painted :
    ∃ drawn, Generation.events Generation.stretch Generation.soaring = .ok drawn ∧
      (∀ e ∈ drawn.toList, ∀ p ∈ (viewport drawn.toList 2 false).footprint e,
        ¬Within 2 p.1 ∧ ¬Within 2 p.2) ∧
      (render drawn.toList 2 { Layers.all with ground := false }).get? 0 0 =
        some (.ofColor .yellow) := by
  have hrun : ((Generation.events Generation.stretch Generation.soaring).toOption.any fun drawn =>
      decide ((render drawn.toList 2 { Layers.all with ground := false }).get? 0 0 =
        some (.ofColor .yellow)) &&
      drawn.toList.all fun e => ((viewport drawn.toList 2 false).footprint e).all fun p =>
        !Scalar.le 0 p.1 && !Scalar.le 0 p.2) = true := by
    decide +kernel
  cases hd : Generation.events Generation.stretch Generation.soaring with
  | error e =>
    rw [hd] at hrun
    cases hrun
  | ok drawn =>
    rw [hd] at hrun
    obtain ⟨hpixel, hplaces⟩ := Bool.and_eq_true_iff.mp hrun
    refine ⟨drawn, rfl, fun e he p hp => ?_, of_decide_eq_true hpixel⟩
    have hle := List.all_eq_true.mp (List.all_eq_true.mp hplaces e he) p hp
    rw [Bool.and_eq_true_iff] at hle
    exact ⟨not_within hle.1, not_within hle.2⟩

end Arbor.Image
