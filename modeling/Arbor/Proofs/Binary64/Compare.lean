import Arbor.Proofs.Binary64.Arithmetic
import Arbor.Scalar

/-! # Comparison of finite numbers

Canonical parts are compared by their exponents first, and by their significands where the
exponents agree. That is the order of the real numbers that they stand for.
-/

namespace Arbor.Binary64

open Float.Model UnpackedFloat

/-- A greater exponent outweighs any significand. -/
theorem Parts.Canonical.magnitude_lt {c d : Parts} (hc : c.Canonical) (hd : d.Canonical)
    (h : c.exponent < d.exponent) : c.magnitude < d.magnitude := by
  have hsig : (c.significand : ℝ) < 2 ^ (53 : ℤ) := by exact_mod_cast hc.significand_lt
  have hfull : (2 : ℝ) ^ (52 : ℤ) ≤ d.significand := by
    have hle := hc.le_exponent
    exact_mod_cast hd.le_significand (by omega)
  calc c.magnitude < 2 ^ (53 : ℤ) * 2 ^ c.exponent :=
        mul_lt_mul_of_pos_right hsig (by positivity)
    _ = 2 ^ (52 : ℤ) * 2 ^ (c.exponent + 1) := by
      rw [← zpow_add₀ two_ne_zero, ← zpow_add₀ two_ne_zero]
      congr 1
      ring
    _ ≤ d.magnitude :=
      mul_le_mul hfull (zpow_le_zpow_right₀ one_le_two (by omega)) (by positivity) (by positivity)

theorem Parts.Canonical.compare_magnitude {c d : Parts} (hc : c.Canonical) (hd : d.Canonical) :
    (compare c.exponent d.exponent).then (compare c.significand d.significand) =
      compare c.magnitude d.magnitude := by
  rcases lt_trichotomy c.exponent d.exponent with h | h | h
  · rw [Int.compare_eq_lt.mpr h, compare_lt_iff_lt.mpr (hc.magnitude_lt hd h)]
    rfl
  · have hpos : (0 : ℝ) < 2 ^ d.exponent := by positivity
    rw [Int.compare_eq_eq.mpr h, Parts.magnitude, Parts.magnitude, h]
    rcases lt_trichotomy c.significand d.significand with hs | hs | hs
    · have hlt : (c.significand : ℝ) < d.significand := by exact_mod_cast hs
      rw [Nat.compare_eq_lt.mpr hs, compare_lt_iff_lt.mpr (mul_lt_mul_of_pos_right hlt hpos)]
      rfl
    · rw [hs, compare_eq_iff_eq.mpr rfl, compare_eq_iff_eq.mpr rfl]
      rfl
    · have hlt : (d.significand : ℝ) < c.significand := by exact_mod_cast hs
      rw [Nat.compare_eq_gt.mpr hs, compare_gt_iff_gt.mpr (mul_lt_mul_of_pos_right hlt hpos)]
      rfl
  · rw [Int.compare_eq_gt.mpr h, compare_gt_iff_gt.mpr (hd.magnitude_lt hc h)]
    rfl

theorem compare_neg_neg (x y : ℝ) : compare (-x) (-y) = (compare x y).swap := by
  rcases lt_trichotomy x y with h | rfl | h
  · rw [compare_lt_iff_lt.mpr h, compare_gt_iff_gt.mpr (neg_lt_neg h)]
    rfl
  · rw [compare_eq_iff_eq.mpr rfl, compare_eq_iff_eq.mpr rfl]
    rfl
  · rw [compare_gt_iff_gt.mpr h, compare_lt_iff_lt.mpr (neg_lt_neg h)]
    rfl

variable {a b : Float}

/-- Finite numbers are ordered as the real numbers that they stand for. -/
theorem compare_eq (ha : a.isFinite = true) (hb : b.isFinite = true) :
    a.toModel.unpack.compare b.toModel.unpack = some (compare (value a) (value b)) := by
  rcases unpack_cases ha with ⟨s, hua, hva⟩ | ⟨s, m, e, hm, hua, hva, hca⟩
  · rcases unpack_cases hb with ⟨t, hub, hvb⟩ | ⟨t, n, f, hn, hub, hvb, hcb⟩
    · rw [hua, hub, hva, hvb, compare_eq_iff_eq.mpr rfl]
      rfl
    · have hpos : (0 : ℝ) < n * 2 ^ f := by positivity
      rw [hua, hub, hva, hvb]
      cases t
      · rw [factor, neg_one_mul, compare_gt_iff_gt.mpr (neg_lt_zero.mpr hpos)]
        rfl
      · rw [factor, one_mul, compare_lt_iff_lt.mpr hpos]
        rfl
  · have hpos : (0 : ℝ) < m * 2 ^ e := by positivity
    rcases unpack_cases hb with ⟨t, hub, hvb⟩ | ⟨t, n, f, hn, hub, hvb, hcb⟩
    · rw [hua, hub, hva, hvb]
      cases s
      · rw [factor, neg_one_mul, compare_lt_iff_lt.mpr (neg_lt_zero.mpr hpos)]
        rfl
      · rw [factor, one_mul, compare_gt_iff_gt.mpr hpos]
        rfl
    · have hpos' : (0 : ℝ) < n * 2 ^ f := by positivity
      have hmag : (compare e f).then (compare m n) = compare ((m : ℝ) * 2 ^ e) (n * 2 ^ f) :=
        hca.compare_magnitude hcb
      rw [hua, hub, hva, hvb]
      cases s <;> cases t <;> simp only [factor, neg_one_mul, one_mul]
      · rw [compare_neg_neg, ← hmag]
        rfl
      · rw [compare_lt_iff_lt.mpr ((neg_lt_zero.mpr hpos).trans hpos')]
        rfl
      · rw [compare_gt_iff_gt.mpr ((neg_lt_zero.mpr hpos').trans hpos)]
        rfl
      · rw [← hmag]
        rfl

theorem lt_iff_compare :
    Scalar.lt a b = true ↔ (a.toModel.unpack.compare b.toModel.unpack == some .lt) = true :=
  decide_eq_true_iff.trans decide_eq_true_iff

theorem le_iff_compare :
    Scalar.le a b = true ↔ (a.toModel.unpack.compare b.toModel.unpack).any (·.isLE) = true :=
  decide_eq_true_iff.trans decide_eq_true_iff

theorem lt_iff (ha : a.isFinite = true) (hb : b.isFinite = true) :
    Scalar.lt a b = true ↔ value a < value b := by
  rw [lt_iff_compare, compare_eq ha hb, beq_iff_eq, Option.some_inj, compare_lt_iff_lt]

theorem le_iff (ha : a.isFinite = true) (hb : b.isFinite = true) :
    Scalar.le a b = true ↔ value a ≤ value b := by
  rw [le_iff_compare, compare_eq ha hb, Option.any_some, ← compare_le_iff_le,
    Ordering.isLE_iff_ne_gt]

theorem isFinite_of_le_of_lt {x : Float} (ha : a.isFinite = true) (hb : b.isFinite = true)
    (hle : Scalar.le a x = true) (hlt : Scalar.lt x b = true) : x.isFinite = true := by
  rw [le_iff_compare] at hle
  rw [lt_iff_compare] at hlt
  change x.toModel.unpack.isFinite = true
  cases hx : x.toModel.unpack with
  | zero s => rfl
  | finite s m e hm => rfl
  | notANumber =>
    rw [hx] at hlt
    cases hlt
  | infinity s =>
    rw [hx] at hle hlt
    cases s
    · rcases unpack_cases ha with ⟨t, hu, -⟩ | ⟨t, m, e, hm, hu, -, -⟩ <;> rw [hu] at hle <;>
        cases hle
    · rcases unpack_cases hb with ⟨t, hu, -⟩ | ⟨t, m, e, hm, hu, -, -⟩ <;> rw [hu] at hlt <;>
        cases hlt

theorem min_of_isFinite (ha : a.isFinite = true) (hb : b.isFinite = true) :
    (Scalar.min a b).isFinite = true ∧ value (Scalar.min a b) = min (value a) (value b) := by
  rw [Scalar.min, Scalar.isNumber, if_pos ((le_iff ha ha).mpr le_rfl)]
  by_cases h : value b < value a
  · rw [if_pos ((lt_iff hb ha).mpr h), min_eq_right h.le]
    exact ⟨hb, rfl⟩
  · rw [if_neg (mt (lt_iff hb ha).mp h), min_eq_left (not_lt.mp h)]
    exact ⟨ha, rfl⟩

end Arbor.Binary64
