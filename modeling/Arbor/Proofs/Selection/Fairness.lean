import Mathlib
import Arbor.Proofs.Random.Count
import Arbor.Proofs.Random.Draws
import Arbor.Proofs.Selection.Partition

/-! # Fairness of the weighted choice

The draws of a generator lie in the unit interval. Since an interval is drawn from by its share of
the states, an item is chosen by as many states as its weight is of the total, but for less than
two.
-/

namespace Arbor.Selection

open RandomSource Xorshift

variable {β : Type} {weight : β → ℚ} {first : β} {rest : List β}

theorem bound_div_total_le_one (hw : ∀ b ∈ first :: rest, 0 ≤ weight b)
    (h : 0 < ((first :: rest).map weight).sum) {i : ℕ} (hi : i ≤ (first :: rest).length) :
    bound weight (first :: rest) i / ((first :: rest).map weight).sum ≤ 1 := by
  rw [div_le_one h, ← bound_length]
  exact bound_mono hw hi

theorem chosenAt_generator_iff (hw : ∀ b ∈ first :: rest, 0 ≤ weight b)
    (h : 0 < ((first :: rest).map weight).sum) (g : Xorshift) (i : ℕ) :
    chosenAt weight first rest g = i ↔
      bound weight (first :: rest) i / ((first :: rest).map weight).sum ≤ unit (step g.state) ∧
      unit (step g.state) <
        bound weight (first :: rest) (i + 1) / ((first :: rest).map weight).sum := by
  have hunit := unit_mem (step g.state)
  have hdraw : (draw (α := ℚ) g).1 = unit (step g.state) := congrArg Prod.fst (draw_eq g)
  rw [chosenAt_eq_iff h hw (hdraw ▸ hunit.1) (hdraw ▸ hunit.2), hdraw, div_le_iff₀ h,
    lt_div_iff₀ h]

theorem abs_ncard_chosenAt_sub_lt (hw : ∀ b ∈ first :: rest, 0 ≤ weight b)
    (h : 0 < ((first :: rest).map weight).sum) {i : ℕ} (hi : i < (first :: rest).length) :
    |({g : Xorshift | g.state ≠ 0 ∧ chosenAt weight first rest g = i}.ncard : ℚ) -
      4294967295 * weight (first :: rest)[i] / ((first :: rest).map weight).sum| < 2 := by
  have hcell := abs_ncard_cell_sub_lt (div_nonneg (bound_nonneg hw i) h.le)
    (div_le_div_of_nonneg_right (bound_mono hw (Nat.le_succ i)) h.le)
    (bound_div_total_le_one hw h hi)
  have hshare : (period : ℚ) * (bound weight (first :: rest) (i + 1) /
      ((first :: rest).map weight).sum - bound weight (first :: rest) i /
      ((first :: rest).map weight).sum) =
      4294967295 * weight (first :: rest)[i] / ((first :: rest).map weight).sum := by
    rw [← sub_div, bound_succ hi, add_sub_cancel_left, mul_div_assoc, period]
    norm_num
  simp only [chosenAt_generator_iff hw h]
  rwa [← ncard_generators, hshare] at hcell

/-- The items partition the line up to the total of their weights, and the one whose stretch holds
the scaled draw is chosen, with one draw. Without any weight the first item is chosen and nothing
is drawn. Over the states of a generator each item is chosen as often as its weight says, but for
less than two. -/
theorem choice_is_fair (weight : β → ℚ) (first : β) (rest : List β)
    (hw : ∀ b ∈ first :: rest, 0 ≤ weight b) :
    let items := first :: rest
    let total := (items.map weight).sum
    (∀ {ρ : Type} [RandomSource ρ ℚ] (source : ρ),
      items[chosenAt weight first rest source]? = some (choose weight first rest source).1) ∧
    (total = 0 → ∀ {ρ : Type} [RandomSource ρ ℚ] (source : ρ),
      chosenAt weight first rest source = 0 ∧ choose weight first rest source = (first, source)) ∧
    (0 < total →
      (∀ {ρ : Type} [RandomSource ρ ℚ] (source : ρ),
        let u : ℚ := (draw source).1
        (choose weight first rest source).2 = (draw (α := ℚ) source).2 ∧
        (0 ≤ u → u < 1 → ∃ (i : ℕ) (hi : i < items.length),
          chosenAt weight first rest source = i ∧ 0 < weight items[i] ∧
          ∀ j, bound weight items j ≤ u * total ∧ u * total < bound weight items (j + 1) ↔ j = i)) ∧
      ∀ (i : ℕ) (hi : i < items.length),
        |({g : Xorshift | g.state ≠ 0 ∧ chosenAt weight first rest g = i}.ncard : ℚ) -
          4294967295 * weight items[i] / total| < 2) := by
  intro items total
  refine ⟨fun source => getElem?_chosenAt weight first rest source,
    fun h ρ _ source => ⟨chosenAt_of_total_eq_zero h source, choose_of_total_eq_zero h source⟩,
    fun h => ⟨fun {ρ} _ source => ⟨?_, fun hu hu' => ?_⟩,
      fun i hi => abs_ncard_chosenAt_sub_lt hw h hi⟩⟩
  · rw [choose_of_total_pos h]
  · obtain ⟨i, hi, hchosen, hle, hlt⟩ := exists_chosenAt_eq h hu hu'
    refine ⟨i, hi, hchosen, ?_, fun j => ?_⟩
    · have hstep := hle.trans_lt hlt
      rw [bound_succ hi] at hstep
      exact (lt_add_iff_pos_right _).mp hstep
    · rw [← chosenAt_eq_iff h hw hu hu', hchosen, eq_comm]

theorem choice_is_fair_quarters :
    (∀ b ∈ [1, 0, 3], (0 : ℚ) ≤ b) ∧ chosenAt (id : ℚ → ℚ) 1 [0, 3] Xorshift.default = 0 ∧
      |({g : Xorshift | g.state ≠ 0 ∧ chosenAt (id : ℚ → ℚ) 1 [0, 3] g = 2}.ncard : ℚ) -
        4294967295 * 3 / 4| < 2 := by
  have hw : ∀ b ∈ [1, 0, 3], (0 : ℚ) ≤ id b := by simp
  have htotal : ((1 :: [0, 3]).map (id : ℚ → ℚ)).sum = 4 := by norm_num
  have hfair := (choice_is_fair (id : ℚ → ℚ) 1 [0, 3] hw).2.2 (by rw [htotal]; norm_num)
  have hlast := hfair.2 2 (by simp)
  rw [htotal] at hlast
  exact ⟨hw, by decide +kernel, hlast⟩

end Arbor.Selection
