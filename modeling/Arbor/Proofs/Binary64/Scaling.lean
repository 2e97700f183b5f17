import Arbor.Proofs.Binary64.Compare

/-! # Scaling by a factor below one

A product with a factor below one is rounded, so it may come out as large as the other factor.
It does so only if the other factor is close to zero, where machine numbers lie so far apart that
none of them is nearer to the product. How close depends on the factor below one.
-/

namespace Arbor.Binary64

open Float.Model UnpackedFloat

variable {u t : Float}

theorem exists_parts_of_pos (ht : t.isFinite = true) (h : 0 < value t) :
    ∃ m e, parts? t = some ⟨false, m, e⟩ ∧ (⟨false, m, e⟩ : Parts).Canonical ∧
      value t = m * 2 ^ e := by
  obtain ⟨⟨s, m, e⟩, hd⟩ := isFinite_iff.mp ht
  have hv := value_of_parts hd
  cases s with
  | true =>
    have hnonneg := (⟨true, m, e⟩ : Parts).magnitude_nonneg
    rw [hv, Parts.value, Parts.factor, if_pos rfl, neg_one_mul, neg_pos] at h
    exact absurd h hnonneg.not_gt
  | false =>
    rw [Parts.value, Parts.factor, if_neg Bool.false_ne_true, one_mul] at hv
    exact ⟨m, e, hd, (canonical_of_parts hd).1, hv⟩

section Product

variable (hu : u.isFinite = true) (ht : t.isFinite = true) (hu0 : 0 ≤ value u) (hpos : 0 < value t)

include hu ht hu0 hpos

theorem isFinite_mul_of_le_one (hu1 : value u ≤ 1) : (u * t).isFinite = true := by
  refine (isRounding_mul hu ht).isFinite _ (representable_value t) ?_ ?_
  · exact (le_abs_self _).trans_lt (abs_value_lt t)
  · rw [abs_of_nonneg (mul_nonneg hu0 hpos.le)]
    exact mul_le_of_le_one_left hpos.le hu1

/-! ## Where the product is smaller -/

/-- The product is below the other factor if half the gap there fits between them. -/
theorem value_mul_lt_of_gap {m : ℕ} {e : ℤ} (hc : (⟨false, m, e⟩ : Parts).Canonical)
    (hv : value t = m * 2 ^ e) (hu1 : value u ≤ 1) (hgap : 1 < 2 * (1 - value u) * m) :
    value (u * t) < value t := by
  have hunit : (0 : ℝ) < 2 ^ e := by positivity
  have hm : m ≠ 0 := by
    rintro rfl
    rw [hv, Nat.cast_zero, zero_mul] at hpos
    exact lt_irrefl _ hpos
  have hbelow : Representable (((m - 1 : ℤ) : ℝ) * 2 ^ e) := by
    have hlt : m < 2 ^ 53 := hc.significand_lt
    refine ⟨m - 1, e, ?_, hc.le_exponent, rfl⟩
    rw [abs_of_nonneg (by omega)]
    omega
  refine (isRounding_mul hu ht).value_lt (isFinite_mul_of_le_one hu ht hu0 hpos hu1) hbelow ?_ ?_
  · rw [hv]
    exact mul_lt_mul_of_pos_right (by push_cast; linarith) hunit
  · have hscaled := mul_lt_mul_of_pos_right hgap hunit
    rw [hv]
    push_cast
    linarith

theorem value_mul_lt (hu1 : value u < 1) (hnormal : (2 : ℝ) ^ (-1022 : ℤ) < value t) :
    value (u * t) < value t := by
  obtain ⟨m, e, -, hc, hv⟩ := exists_parts_of_pos ht hpos
  have hu53 := (representable_value u).le_of_lt_one hu1
  have hunit : (0 : ℝ) < 2 ^ e := by positivity
  have hm : 2 ^ 52 ≤ m := by
    by_contra hlt
    obtain rfl : e = -1074 := not_imp_comm.mp hc.le_significand hlt
    have hle : (m : ℝ) ≤ 2 ^ (52 : ℤ) := by exact_mod_cast (not_le.mp hlt).le
    rw [hv, show (-1022 : ℤ) = 52 + -1074 by norm_num, zpow_add₀ two_ne_zero] at hnormal
    exact hnormal.not_ge (mul_le_mul_of_nonneg_right hle hunit.le)
  rcases hm.eq_or_lt with rfl | hm
  · -- Below a power of two the gap is half as wide, and it fits between the two.
    have he : -1074 < e := by
      refine hc.le_exponent.lt_of_ne ?_
      rintro rfl
      rw [hv, show (-1022 : ℤ) = 52 + -1074 by norm_num, zpow_add₀ two_ne_zero] at hnormal
      norm_num at hnormal
    have hhalf : (2 : ℝ) ^ e = 2 * 2 ^ (e - 1) := by
      rw [← zpow_one_add₀ two_ne_zero, add_sub_cancel]
    have hbelow : Representable (((2 ^ 53 - 1 : ℤ) : ℝ) * 2 ^ (e - 1)) :=
      ⟨2 ^ 53 - 1, e - 1, by norm_num, by omega, rfl⟩
    have hle : value u * value t ≤ ((2 ^ 53 - 1 : ℤ) : ℝ) * 2 ^ (e - 1) := by
      calc value u * value t ≤ (1 - 2 ^ (-53 : ℤ)) * value t :=
            mul_le_mul_of_nonneg_right hu53 hpos.le
        _ = ((2 ^ 53 - 1 : ℤ) : ℝ) * 2 ^ (e - 1) := by
          rw [hv, hhalf]
          norm_num
          ring
    refine ((isRounding_mul hu ht).value_le (isFinite_mul_of_le_one hu ht hu0 hpos hu1.le) hbelow
      hle).trans_lt ?_
    rw [hv, hhalf, ← mul_assoc]
    exact mul_lt_mul_of_pos_right (by norm_num) (by positivity)
  · refine value_mul_lt_of_gap hu ht hu0 hpos hc hv hu1.le ?_
    have hm' : (2 : ℝ) ^ 52 + 1 ≤ m := by exact_mod_cast hm
    calc (1 : ℝ) < 2 * 2 ^ (-53 : ℤ) * (2 ^ 52 + 1) := by norm_num
      _ ≤ 2 * (1 - value u) * m :=
        mul_le_mul (by linarith) hm' (by positivity) (by linarith)

theorem value_mul_lt_of_le (hu1 : value u ≤ 1 - 2 ^ (-52 : ℤ))
    (hlarge : (2 : ℝ) ^ (-1023 : ℤ) < value t) : value (u * t) < value t := by
  obtain ⟨m, e, -, hc, hv⟩ := exists_parts_of_pos ht hpos
  have hpow : (0 : ℝ) < 2 ^ (-52 : ℤ) := by positivity
  have hm : (2 : ℝ) ^ 51 < m := by
    by_cases he : e = -1074
    · subst he
      rw [hv, show (-1023 : ℤ) = 51 + -1074 by norm_num, zpow_add₀ two_ne_zero] at hlarge
      exact_mod_cast lt_of_mul_lt_mul_right hlarge (by positivity)
    · have hfull : 2 ^ 52 ≤ m := hc.le_significand he
      calc (2 : ℝ) ^ 51 < 2 ^ 52 := by norm_num
        _ ≤ (m : ℝ) := by exact_mod_cast hfull
  refine value_mul_lt_of_gap hu ht hu0 hpos hc hv (by linarith) ?_
  calc (1 : ℝ) = 2 * 2 ^ (-52 : ℤ) * 2 ^ 51 := by norm_num
    _ < 2 * 2 ^ (-52 : ℤ) * m := mul_lt_mul_of_pos_left hm (by positivity)
    _ ≤ 2 * (1 - value u) * m := mul_le_mul_of_nonneg_right (by linarith) (Nat.cast_nonneg m)

/-! ## Where it is not -/

/-- The product is the other factor if it is less than half the least gap away from it. -/
theorem value_mul_eq (hu1 : value u ≤ 1)
    (hgap : 2 * (1 - value u) * value t < 2 ^ (-1074 : ℤ)) : value (u * t) = value t := by
  have hround := isRounding_mul hu ht
  have hfin := isFinite_mul_of_le_one hu ht hu0 hpos hu1
  have hle := hround.value_le hfin (representable_value t) (mul_le_of_le_one_left hpos.le hu1)
  refine hle.eq_of_not_lt fun hlt => ?_
  have hnear := hround.nearest hfin _ (representable_value t)
  have hstep := (representable_value (u * t)).add_two_zpow_le (representable_value t) hlt
  have hout : value u * value t ≤ value t := mul_le_of_le_one_left hpos.le hu1
  rw [abs_of_nonneg (sub_nonneg.mpr hout)] at hnear
  have hfar := neg_abs_le (value (u * t) - value u * value t)
  linarith

end Product

theorem parts_of_value {d : Parts} (ht : t.isFinite = true) (hd : d.Canonical)
    (hneg : d.negative = false) (hpos : 0 < d.magnitude) (h : value t = d.magnitude) :
    parts? t = some d := by
  obtain ⟨m, e, hparts, hc, hv⟩ := exists_parts_of_pos ht (h ▸ hpos)
  obtain ⟨negative, n, f⟩ := d
  obtain rfl : negative = false := hneg
  have hmag : (⟨false, m, e⟩ : Parts).magnitude = (⟨false, n, f⟩ : Parts).magnitude :=
    hv.symm.trans h
  rcases lt_trichotomy e f with hlt | rfl | hgt
  · exact absurd hmag (hc.magnitude_lt hd hlt).ne
  · have hsig : m = n := by exact_mod_cast mul_right_cancel₀ (by positivity) hmag
    rw [hparts, hsig]
  · exact absurd hmag (hd.magnitude_lt hc hgt).ne'

/-- The product is the other factor also if it is just half the least gap away, as long as the
tie is broken that way. -/
theorem value_mul_eq_of_le {c : Parts} {n : ℕ} (hu : parts? u = some c) (hu0 : 0 ≤ value u)
    (hn : n < 2 ^ 53) (hgap : 2 * (1 - value u) * n = 1)
    (htie : parts? (.ofModel (pack (UnpackedFloat.mul Format.binary64 c.unpacked
      (⟨false, n, -1074⟩ : Parts).unpacked))) = some ⟨false, n, -1074⟩)
    (ht : t.isFinite = true) (hpos : 0 < value t) (hle : value t ≤ n * 2 ^ (-1074 : ℤ)) :
    value (u * t) = value t := by
  have hu1 : value u < 1 := by
    by_contra hge
    have hsmall : 2 * (1 - value u) * n ≤ 0 :=
      mul_nonpos_of_nonpos_of_nonneg (by linarith) (Nat.cast_nonneg n)
    linarith
  rcases hle.lt_or_eq with hlt | hv
  · refine value_mul_eq (isFinite_iff.mpr ⟨c, hu⟩) ht hu0 hpos hu1.le ?_
    calc 2 * (1 - value u) * value t < 2 * (1 - value u) * (n * 2 ^ (-1074 : ℤ)) :=
          mul_lt_mul_of_pos_left hlt (by linarith)
      _ = 2 ^ (-1074 : ℤ) := by rw [← mul_assoc, hgap, one_mul]
  · have hparts : parts? t = some ⟨false, n, -1074⟩ :=
      parts_of_value ht ⟨hn, le_rfl, fun h => absurd rfl h⟩ rfl (hpos.trans_eq hv) hv
    have hprod : parts? (u * t) = some ⟨false, n, -1074⟩ := by
      rw [← htie, ← unpack_eq_of_parts hu, ← unpack_eq_of_parts hparts]
      rfl
    rw [value_of_parts hprod, value_of_parts hparts]

theorem two_zpow_lt_of_value_mul_lt {c : Parts} {k : ℕ} {e : ℤ} (hk : k < 53)
    (he : e = k + -1074) (hu : parts? u = some c) (hu0 : 0 ≤ value u)
    (hgap : 2 * (1 - value u) * 2 ^ k = 1)
    (htie : parts? (.ofModel (pack (UnpackedFloat.mul Format.binary64 c.unpacked
      (⟨false, 2 ^ k, -1074⟩ : Parts).unpacked))) = some ⟨false, 2 ^ k, -1074⟩)
    (ht : t.isFinite = true) (hpos : 0 < value t) (h : value (u * t) < value t) :
    (2 : ℝ) ^ e < value t := by
  by_contra hle
  have hpow : (2 : ℝ) ^ e = (2 ^ k : ℕ) * 2 ^ (-1074 : ℤ) := by
    rw [he, zpow_add₀ two_ne_zero, zpow_natCast, Nat.cast_pow, Nat.cast_ofNat]
  refine h.ne (value_mul_eq_of_le hu hu0 (Nat.pow_lt_pow_right one_lt_two hk) ?_ htie ht hpos
    (hpow ▸ not_lt.mp hle))
  rw [Nat.cast_pow, Nat.cast_ofNat, hgap]

/-! ## The greatest number below one -/

def belowOne : Float := Float.ofBits 0x3FEFFFFFFFFFFFFF

theorem parts_belowOne : parts? belowOne = some ⟨false, 2 ^ 53 - 1, -53⟩ := by decide

theorem isFinite_belowOne : belowOne.isFinite = true := isFinite_iff.mpr ⟨_, parts_belowOne⟩

theorem value_belowOne : value belowOne = 1 - 2 ^ (-53 : ℤ) := by
  rw [value_of_parts parts_belowOne]
  norm_num [Parts.value, Parts.factor, Parts.magnitude]

theorem value_belowOne_nonneg : 0 ≤ value belowOne := by
  rw [value_belowOne]
  norm_num

/-- Numbers above the least normal one are those that all factors below one make smaller. -/
theorem value_belowOne_mul_lt_iff (ht : t.isFinite = true) (hpos : 0 < value t) :
    value (belowOne * t) < value t ↔ (2 : ℝ) ^ (-1022 : ℤ) < value t := by
  constructor
  · refine two_zpow_lt_of_value_mul_lt (by decide : 52 < 53) (by norm_num) parts_belowOne
      value_belowOne_nonneg ?_ (by decide) ht hpos
    rw [value_belowOne]
    norm_num
  · refine value_mul_lt isFinite_belowOne ht value_belowOne_nonneg hpos ?_
    rw [value_belowOne]
    norm_num

end Arbor.Binary64
