import Arbor.Proofs.Random.Step
import Arbor.Proofs.Random.Unit
import Mathlib.Data.FinEnum
import Mathlib.Data.Set.Card
import Mathlib.Order.Interval.Finset.Nat

/-! # How many states draw from an interval

A step is a permutation of the states other than zero, so their places are those of the numbers
from one to the top state. Beside the even grid of as many places from zero on, the first place
is missing and the top one is held back, which changes a count by one at most each.
-/

namespace Arbor.Xorshift

/-- How many states but zero there are, which is also the top state. -/
def period : ℕ := 4294967295

def topPlace : ℚ := 1 - 1 / 2 ^ 52

/-- The place of a number on the even grid, but for the top one. -/
def place (k : ℕ) : ℚ := min ((k : ℚ) / period) topPlace

theorem place_of_lt {k : ℕ} (h : k < period) : place k = k / period := by
  have hk : (k : ℚ) ≤ 4294967294 := by exact_mod_cast Nat.le_of_lt_succ h
  rw [place, min_eq_left]
  rw [period, topPlace, div_le_iff₀ (by norm_num)]
  norm_num
  linarith

theorem place_period : place period = topPlace := by
  rw [place, min_eq_right]
  rw [period, topPlace]
  norm_num

theorem unit_eq_place (x : UInt32) : unit x = place x.toNat := by
  rw [unit_rat]
  rfl

theorem unit_mem (x : UInt32) : (unit x : ℚ) ∈ Set.Ico 0 1 := by
  rw [unit_rat]
  constructor
  · positivity
  · exact (min_le_right _ _).trans_lt (by norm_num)

/-- The states but zero are followed by the states but zero, so their draws are the places of the
numbers from one on. -/
theorem ncard_states (p : ℚ → Prop) [DecidablePred p] :
    {x : UInt32 | x ≠ 0 ∧ p (unit (step x))}.ncard =
      ((Finset.Icc 1 period).filter fun k => p (place k)).card := by
  have hinj : Function.Injective fun x => (step x).toNat :=
    fun x y h => step_injective (UInt32.toNat_inj.mp h)
  have himage : (fun x => (step x).toNat) '' {x : UInt32 | x ≠ 0 ∧ p (unit (step x))} =
      ((Finset.Icc 1 period).filter fun k => p (place k)) := by
    ext k
    simp only [Set.mem_image, Set.mem_ofPred_eq, Finset.coe_filter, Finset.mem_Icc]
    constructor
    · rintro ⟨x, ⟨hx, hp⟩, rfl⟩
      have h0 : (step x).toNat ≠ 0 := fun h =>
        hx (step_injective ((UInt32.toNat_inj.mp h).trans step_zero.symm))
      have hlt := (step x).toNat_lt
      rw [unit_eq_place] at hp
      exact ⟨⟨Nat.pos_of_ne_zero h0, by rw [period]; omega⟩, hp⟩
    · rintro ⟨⟨h1, hle⟩, hp⟩
      have hk : k < 2 ^ 32 := by rw [period] at hle; omega
      obtain ⟨x, hx⟩ := Finite.surjective_of_injective step_injective (UInt32.ofNat k)
      have hnat : (step x).toNat = k := by rw [hx, UInt32.toNat_ofNat_of_lt' hk]
      refine ⟨x, ⟨?_, by rwa [unit_eq_place, hnat]⟩, hnat⟩
      rintro rfl
      rw [step_zero] at hnat
      exact absurd h1 (by rw [← hnat]; decide)
  rw [← Set.ncard_image_of_injective _ hinj, himage, Set.ncard_coe_finset]

theorem ncard_generators (p : UInt32 → Prop) :
    {g : Xorshift | p g.state}.ncard = {x | p x}.ncard := by
  have himage : Xorshift.mk '' {x | p x} = {g | p g.state} := by
    ext ⟨x⟩
    simp
  rw [← himage, Set.ncard_image_of_injective _ fun x y h => congrArg state h]

section Cell

variable {a b : ℚ}

theorem card_grid (hb : b ≤ 1) :
    ((Finset.range period).filter fun k : ℕ => a ≤ k / period ∧ (k / period : ℚ) < b).card =
      ⌈b * period⌉₊ - ⌈a * period⌉₊ := by
  have hpos : (0 : ℚ) < period := by norm_num [period]
  rw [← Nat.card_Ico]
  refine congrArg Finset.card (Finset.ext fun k => ?_)
  rw [Finset.mem_filter, Finset.mem_range, Finset.mem_Ico, Nat.ceil_le, Nat.lt_ceil,
    le_div_iff₀ hpos, div_lt_iff₀ hpos]
  refine and_iff_right_of_imp fun h => ?_
  have hlt : (k : ℚ) < period := h.2.trans_le (mul_le_of_le_one_left hpos.le hb)
  exact_mod_cast hlt

/-- The states that draw from an interval, beside the places of the grid: without the place zero
and with the top state, which is held back. -/
theorem ncard_cell (hb : b ≤ 1) :
    {x : UInt32 | x ≠ 0 ∧ a ≤ unit (step x) ∧ unit (step x) < b}.ncard +
        (if a ≤ 0 ∧ 0 < b then 1 else 0) =
      ⌈b * period⌉₊ - ⌈a * period⌉₊ + if a ≤ topPlace ∧ topPlace < b then 1 else 0 := by
  have hrange : Finset.range period = insert 0 (Finset.Ico 1 period) := by
    ext k
    rw [Finset.mem_insert, Finset.mem_range, Finset.mem_Ico, period]
    omega
  have hstates : Finset.Icc 1 period = insert period (Finset.Ico 1 period) := by
    ext k
    rw [Finset.mem_insert, Finset.mem_Icc, Finset.mem_Ico, period]
    omega
  -- Between the two ends the places are those of the grid.
  have hcore : ((Finset.Ico 1 period).filter fun k => a ≤ place k ∧ place k < b) =
      (Finset.Ico 1 period).filter fun k : ℕ => a ≤ k / period ∧ (k / period : ℚ) < b := by
    refine Finset.filter_congr fun k hk => ?_
    rw [place_of_lt (Finset.mem_Ico.mp hk).2]
  rw [ncard_states fun u => a ≤ u ∧ u < b, ← card_grid hb, hrange, hstates,
    Finset.filter_insert, Finset.filter_insert, hcore, place_period]
  simp only [Nat.cast_zero, zero_div]
  split_ifs <;> simp [Finset.card_insert_of_notMem]

/-- An interval is drawn from by its share of the states, but for less than two. -/
theorem abs_ncard_cell_sub_lt (ha : 0 ≤ a) (hab : a ≤ b) (hb : b ≤ 1) :
    |({x : UInt32 | x ≠ 0 ∧ a ≤ unit (step x) ∧ unit (step x) < b}.ncard : ℚ) -
      period * (b - a)| < 2 := by
  have hcount := congrArg (Nat.cast : ℕ → ℚ) (ncard_cell (a := a) hb)
  have hpos : (0 : ℚ) < period := by norm_num [period]
  have hceil : ⌈a * period⌉₊ ≤ ⌈b * period⌉₊ :=
    Nat.ceil_le_ceil (mul_le_mul_of_nonneg_right hab hpos.le)
  have hcast : (⌈b * period⌉₊ - ⌈a * period⌉₊ : ℕ) = (⌈b * period⌉₊ : ℚ) - ⌈a * period⌉₊ :=
    Nat.cast_sub hceil
  have hle_a := Nat.le_ceil (a * period)
  have hlt_a := Nat.ceil_lt_add_one (mul_nonneg ha hpos.le)
  have hle_b := Nat.le_ceil (b * period)
  have hlt_b := Nat.ceil_lt_add_one (mul_nonneg (ha.trans hab) hpos.le)
  have hone (q : Prop) [Decidable q] :
      (0 : ℚ) ≤ (if q then 1 else 0 : ℕ) ∧ ((if q then 1 else 0 : ℕ) : ℚ) ≤ 1 := by
    split_ifs <;> norm_num
  obtain ⟨hzero, hzero'⟩ := hone (a ≤ 0 ∧ 0 < b)
  obtain ⟨htop, htop'⟩ := hone (a ≤ topPlace ∧ topPlace < b)
  rw [Nat.cast_add, Nat.cast_add, hcast] at hcount
  rw [abs_lt]
  constructor <;> linarith

end Cell

end Arbor.Xorshift
