import Arbor.Proofs.Binary64.Scaling
import Arbor.Random.Xorshift

/-! # Rounded places in the unit interval

In machine arithmetic, too, the places of states are held back from one, by twice as much as the
greatest number below one is. So they scale down numbers that others would leave as they are.
-/

namespace Arbor.Xorshift

open Binary64

/-- The state whose place is held back. -/
def topState : UInt32 := 0xffffffff

theorem parts_unit_topState : parts? (unit topState) = some ⟨false, 2 ^ 53 - 2, -53⟩ := by
  decide

theorem value_unit_topState : value (unit topState) = 1 - 2 ^ (-52 : ℤ) := by
  rw [value_of_parts parts_unit_topState]
  norm_num [Parts.value, Parts.factor, Parts.magnitude]

/-- The place of a state is a rounded quotient, unless that is above the place of the top state. -/
theorem exists_isRounding_unit (x : UInt32) :
    ∃ q : Float, q.isFinite = true ∧ IsRounding ((x.toNat : ℝ) / 4294967295) q ∧
      (unit x : Float).isFinite = true ∧ value (unit x) = min (value q) (1 - 2 ^ (-52 : ℤ)) := by
  have hlt := x.toNat_lt
  obtain ⟨hfn, hvn⟩ := ofNat_of_lt (by omega : x.toNat < 2 ^ 53)
  obtain ⟨hfd, hvd⟩ := ofNat_of_lt (by norm_num : 4294967295 < 2 ^ 53)
  have hquot := isRounding_div hfn hfd (by rw [hvd]; norm_num)
  rw [hvn, hvd] at hquot
  obtain ⟨hfq, -⟩ := hquot.of_abs_le_two_zpow (k := 0) (by norm_num) (by norm_num) (by
    rw [abs_of_nonneg (by positivity), zpow_zero, Nat.cast_ofNat, div_le_one (by norm_num)]
    exact_mod_cast (by omega : x.toNat ≤ 4294967295))
  have htop : parts? (1 - 1 / Scalar.ofInt 0x10000000000000 : Float) =
      some ⟨false, 2 ^ 53 - 2, -53⟩ := by decide
  have hvt : value (1 - 1 / Scalar.ofInt 0x10000000000000 : Float) = 1 - 2 ^ (-52 : ℤ) := by
    rw [value_of_parts htop]
    norm_num [Parts.value, Parts.factor, Parts.magnitude]
  obtain ⟨hfin, hval⟩ := min_of_isFinite hfq (isFinite_iff.mpr ⟨_, htop⟩)
  exact ⟨_, hfq, hquot, hfin, hvt ▸ hval⟩

theorem unit_mem_of_rounded (x : UInt32) :
    (unit x : Float).isFinite = true ∧ 0 ≤ value (unit x) ∧ value (unit x) ≤ 1 - 2 ^ (-52 : ℤ) := by
  obtain ⟨q, hq, hround, hfin, hval⟩ := exists_isRounding_unit x
  rw [hval]
  exact ⟨hfin, le_min (hround.le_value hq Representable.zero (by positivity)) (by norm_num),
    min_le_right _ _⟩

theorem value_unit_pos {x : UInt32} (h : x ≠ 0) : 0 < value (unit x) := by
  obtain ⟨q, hq, hround, -, hval⟩ := exists_isRounding_unit x
  have hone : (1 : ℝ) ≤ x.toNat := by
    exact_mod_cast Nat.one_le_iff_ne_zero.mpr fun h0 => h (UInt32.toNat_inj.mp h0)
  have hlow : (2 : ℝ) ^ (-32 : ℤ) ≤ value q := by
    refine hround.le_value hq (Representable.two_zpow (by norm_num)) ?_
    rw [le_div_iff₀ (by norm_num)]
    exact le_trans (by norm_num) hone
  rw [hval]
  exact lt_min (lt_of_lt_of_le (by positivity) hlow) (by norm_num)

theorem value_unit_lt {x : UInt32} (h : x ≠ topState) :
    value (unit x) < value (unit topState) := by
  obtain ⟨q, hq, hround, -, hval⟩ := exists_isRounding_unit x
  have hle : x.toNat ≤ 4294967294 := by
    have hlt := x.toNat_lt
    have hne : x.toNat ≠ 4294967295 := fun he => h (UInt32.toNat_inj.mp he)
    omega
  have hrep : Representable (1 - 2 ^ (-32 : ℤ)) :=
    ⟨2 ^ 32 - 1, -32, by norm_num, by norm_num, by norm_num⟩
  have hquot : (x.toNat : ℝ) / 4294967295 ≤ 1 - 2 ^ (-32 : ℤ) := by
    have hcast : (x.toNat : ℝ) ≤ 4294967294 := by exact_mod_cast hle
    rw [div_le_iff₀ (by norm_num)]
    exact hcast.trans (by norm_num)
  rw [hval, value_unit_topState]
  exact (min_le_left _ _).trans_lt ((hround.value_le hq hrep hquot).trans_lt (by norm_num))

/-- Numbers above half the least normal one are those that all states make smaller. -/
theorem value_unit_topState_mul_lt_iff {t : Float} (ht : t.isFinite = true) (hpos : 0 < value t) :
    value (unit topState * t) < value t ↔ (2 : ℝ) ^ (-1023 : ℤ) < value t := by
  obtain ⟨hf, hu0, hu1⟩ := unit_mem_of_rounded topState
  constructor
  · refine two_zpow_lt_of_value_mul_lt (by decide : 51 < 53) (by norm_num) parts_unit_topState hu0
      ?_ (by decide) ht hpos
    rw [value_unit_topState]
    norm_num
  · exact value_mul_lt_of_le hf ht hu0 hpos hu1

theorem step_eq_topState : step 253081614 = topState := by decide

end Arbor.Xorshift
