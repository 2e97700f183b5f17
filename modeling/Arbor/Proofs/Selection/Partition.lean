import Mathlib
import Arbor.Proofs.Exact
import Arbor.Proofs.Selection.Scan

/-! # Choice as a partition

In exact arithmetic the weights lie end to end on the line from zero to their total, and the item
whose stretch holds the point that was drawn is chosen. The stretch of an item without weight is
empty, so such an item is never chosen.
-/

namespace Arbor.Selection

variable {β ρ : Type} {weight : β → ℚ}

theorem sumFrom_rat (weight : β → ℚ) (sum : ℚ) (items : List β) :
    sumFrom weight sum items = sum + (items.map weight).sum := by
  induction items generalizing sum with
  | nil => exact (add_zero sum).symm
  | cons b rest ih => rw [sumFrom_cons, ih, List.map_cons, List.sum_cons, ← add_assoc]

theorem total_rat (weight : β → ℚ) (items : List β) :
    total weight items = (items.map weight).sum := by
  change sumFrom weight (-0) items = _
  rw [sumFrom_rat, neg_zero, zero_add]

/-- Where the stretch of an item begins: the sum of the weights before it. -/
def bound (weight : β → ℚ) (items : List β) (i : ℕ) : ℚ := ((items.take i).map weight).sum

section Bounds

variable {items : List β} {i j : ℕ} {point : ℚ}

theorem bound_length (weight : β → ℚ) (items : List β) :
    bound weight items items.length = (items.map weight).sum := by
  rw [bound, List.take_length]

theorem bound_succ (hi : i < items.length) :
    bound weight items (i + 1) = bound weight items i + weight items[i] := by
  rw [bound, bound, List.take_succ_eq_append_getElem hi, List.map_append, List.sum_append,
    List.map_singleton, List.sum_singleton]

theorem exists_firstAbove?_zipIdx (h0 : 0 ≤ point) (hlt : point < (items.map weight).sum) :
    ∃ (i : ℕ) (hi : i < items.length),
      firstAbove? (weight ∘ Prod.fst) point 0 items.zipIdx = some (items[i], i) ∧
        bound weight items i ≤ point ∧ point < bound weight items (i + 1) := by
  have hstart : Scalar.lt point 0 = false := decide_eq_false h0.not_gt
  have hsum (places : List (β × ℕ)) : sumFrom (weight ∘ Prod.fst) 0 places =
      ((places.map Prod.fst).map weight).sum := by
    rw [sumFrom_rat, zero_add, List.map_map]
  cases hscan : firstAbove? (weight ∘ Prod.fst) point 0 items.zipIdx with
  | none =>
    have hend := (firstAbove?_eq_none_iff hstart).mp hscan _ List.prefix_rfl
    rw [hsum, List.zipIdx_map_fst] at hend
    exact absurd hlt (of_decide_eq_false hend)
  | some place =>
    obtain ⟨before, after, hitems, hnone, habove⟩ := firstAbove?_eq_some_iff.mp hscan
    have hbelow := (firstAbove?_eq_none_iff hstart).mp hnone _ List.prefix_rfl
    -- The place that ends the scan is as far from the front as its position tells.
    have hplace : items.zipIdx[before.length]? = some place := by rw [hitems]; simp
    obtain ⟨b, hb, rfl⟩ : ∃ b, items[before.length]? = some b ∧ (b, before.length) = place := by
      simpa [List.getElem?_zipIdx] using hplace
    obtain ⟨hi, rfl⟩ := List.getElem?_eq_some_iff.mp hb
    have htake : items.take before.length = before.map Prod.fst := by
      rw [← List.zipIdx_map_fst 0 items, hitems, ← List.map_take, List.take_left]
    rw [hsum] at hbelow habove
    refine ⟨before.length, hi, rfl, ?_, ?_⟩
    · rw [bound, htake]
      exact not_lt.mp (of_decide_eq_false hbelow)
    · rw [bound, List.take_succ_eq_append_getElem hi, htake]
      rw [List.map_append, List.map_singleton] at habove
      exact of_decide_eq_true habove

variable (hw : ∀ b ∈ items, 0 ≤ weight b)
include hw

theorem bound_mono (h : i ≤ j) : bound weight items i ≤ bound weight items j := by
  obtain ⟨rest, hrest⟩ := List.take_prefix_take_left (l := items) h
  rw [bound, bound, ← hrest, List.map_append, List.sum_append]
  refine le_add_of_nonneg_right (List.sum_nonneg fun x hx => ?_)
  obtain ⟨b, hb, rfl⟩ := List.mem_map.mp hx
  exact hw b (List.mem_of_mem_take (hrest ▸ List.mem_append_right _ hb))

theorem bound_nonneg (i : ℕ) : 0 ≤ bound weight items i := bound_mono hw (Nat.zero_le i)

theorem eq_of_mem_stretch (hi : bound weight items i ≤ point)
    (hi' : point < bound weight items (i + 1)) (hj : bound weight items j ≤ point)
    (hj' : point < bound weight items (j + 1)) : i = j := by
  rcases Nat.lt_trichotomy i j with hlt | rfl | hgt
  · exact absurd (hi'.trans_le ((bound_mono hw hlt).trans hj)) (lt_irrefl _)
  · rfl
  · exact absurd (hj'.trans_le ((bound_mono hw hgt).trans hi)) (lt_irrefl _)

end Bounds

section Choice

open RandomSource

variable [RandomSource ρ ℚ] {first : β} {rest : List β} {source : ρ}

theorem between_rat (t u : ℚ) : between 0 t u = u * t := by
  rw [between, sub_zero, add_zero]

theorem map_places (weight : β → ℚ) (first : β) (rest : List β) :
    ((first, 0) :: rest.zipIdx 1).map (weight ∘ Prod.fst) = (first :: rest).map weight := by
  rw [← List.map_map, ← List.zipIdx_cons, List.zipIdx_map_fst]

theorem choose_of_total_eq_zero (h : ((first :: rest).map weight).sum = 0) (source : ρ) :
    choose weight first rest source = (first, source) := by
  refine choose_of_le (decide_eq_true ?_) source
  rw [total_rat, h]

theorem chosenAt_of_total_eq_zero (h : ((first :: rest).map weight).sum = 0) (source : ρ) :
    chosenAt weight first rest source = 0 := by
  rw [chosenAt, choose_of_total_eq_zero (by rw [map_places]; exact h)]

variable (h : 0 < ((first :: rest).map weight).sum)
include h

theorem choose_of_total_pos (source : ρ) :
    choose weight first rest source =
      ((firstAbove? weight ((draw source).1 * ((first :: rest).map weight).sum) 0
          (first :: rest)).getD first, (draw (α := ℚ) source).2) := by
  rw [choose_of_not_le (decide_eq_false (by rw [total_rat]; exact h.not_ge)), between_rat,
    total_rat]

theorem exists_chosenAt_eq (hu : 0 ≤ (draw (α := ℚ) source).1)
    (hu' : (draw (α := ℚ) source).1 < 1) :
    ∃ i < (first :: rest).length, chosenAt weight first rest source = i ∧
      bound weight (first :: rest) i ≤ (draw source).1 * ((first :: rest).map weight).sum ∧
      (draw source).1 * ((first :: rest).map weight).sum <
        bound weight (first :: rest) (i + 1) := by
  obtain ⟨i, hi, hscan, hle, hlt⟩ := exists_firstAbove?_zipIdx
    (mul_nonneg hu h.le) (mul_lt_of_lt_one_left h hu')
  refine ⟨i, hi, ?_, hle, hlt⟩
  have hplaces := map_places weight first rest
  rw [chosenAt, choose_of_total_pos (by rw [hplaces]; exact h), hplaces, ← List.zipIdx_cons, hscan]
  rfl

variable (hw : ∀ b ∈ first :: rest, 0 ≤ weight b)
include hw

theorem chosenAt_eq_iff (hu : 0 ≤ (draw (α := ℚ) source).1)
    (hu' : (draw (α := ℚ) source).1 < 1) {i : ℕ} :
    chosenAt weight first rest source = i ↔
      bound weight (first :: rest) i ≤ (draw source).1 * ((first :: rest).map weight).sum ∧
      (draw source).1 * ((first :: rest).map weight).sum <
        bound weight (first :: rest) (i + 1) := by
  obtain ⟨j, -, hj, hle, hlt⟩ := exists_chosenAt_eq h hu hu'
  constructor
  · rintro rfl
    rw [hj]
    exact ⟨hle, hlt⟩
  · rintro ⟨hle', hlt'⟩
    rw [hj]
    exact eq_of_mem_stretch hw hle hlt hle' hlt'

end Choice

end Arbor.Selection
