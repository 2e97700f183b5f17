import Arbor.Proofs.Binary64.Order

/-! # Rounding down

A finite number is rounded down as the real number that it stands for, up to the bounds of
sixty-four bits. Infinite numbers are rounded to these bounds.
-/

namespace Arbor.Binary64

open Float.Model UnpackedFloat

theorem Parts.floor_eq (d : Parts) : d.floor = ⌊d.value⌋ := by
  obtain ⟨negative, m, e⟩ := d
  have hvalue : Parts.value ⟨negative, m, e⟩ =
      ((if negative then -(m : ℤ) else m : ℤ) : ℝ) * 2 ^ e := by
    cases negative <;> simp [Parts.value, Parts.factor, Parts.magnitude]
  rw [hvalue]
  generalize hn : (if negative then -(m : ℤ) else m : ℤ) = n
  simp only [Parts.floor, hn]
  split
  · next h =>
    obtain ⟨k, rfl⟩ := Int.eq_ofNat_of_zero_le h
    have hcast : (n : ℝ) * 2 ^ (k : ℤ) = ((n * 2 ^ k : ℤ) : ℝ) := by push_cast; rfl
    rw [hcast, Int.floor_intCast]
    rfl
  · next h =>
    obtain ⟨k, hk⟩ := Int.eq_ofNat_of_zero_le (show 0 ≤ -e by omega)
    have hcast : (n : ℝ) * 2 ^ e = n / ((2 ^ k : ℕ) : ℝ) := by
      rw [← neg_neg e, hk, zpow_neg, zpow_natCast, div_eq_mul_inv]
      push_cast
      rfl
    rw [hcast, Int.floor_div_natCast, Int.floor_intCast, hk,
      Int.fdiv_eq_ediv_of_nonneg _ (Int.natCast_nonneg _)]
    rfl

variable {x : Float}

theorem floor_of_isFinite (h : x.isFinite = true) :
    floor x = max int64Min (min int64Max ⌊value x⌋) := by
  obtain ⟨d, hd⟩ := isFinite_iff.mp h
  simp only [floor, hd, value_of_parts hd, Parts.floor_eq]

theorem parts_eq_none (h : x.isFinite = false) : parts? x = none := by
  rw [Option.eq_none_iff_forall_ne_some]
  intro d hd
  rw [isFinite_iff.mpr ⟨d, hd⟩] at h
  cases h

theorem unpack_of_isNaN (h : x.isNaN = true) : x.toModel.unpack = .notANumber := by
  change x.toModel.unpack.isNaN = true at h
  cases hu : x.toModel.unpack with
  | notANumber => rfl
  | _ =>
    rw [hu] at h
    cases h

theorem isFinite_eq_false_of_isNaN (h : x.isNaN = true) : x.isFinite = false := by
  change x.toModel.unpack.isFinite = false
  rw [unpack_of_isNaN h]
  rfl

theorem unpack_of_not_isFinite (h : x.isFinite = false) (hn : x.isNaN = false) :
    ∃ s, x.toModel.unpack = .infinity s := by
  change x.toModel.unpack.isFinite = false at h
  change x.toModel.unpack.isNaN = false at hn
  cases hu : x.toModel.unpack with
  | infinity s => exact ⟨s, rfl⟩
  | notANumber =>
    rw [hu] at hn
    cases hn
  | _ =>
    rw [hu] at h
    cases h

theorem floor_of_isNaN (h : x.isNaN = true) : floor x = 0 := by
  simp only [floor, parts_eq_none (isFinite_eq_false_of_isNaN h), if_pos h]

theorem signBit_of_unpack {s : Sign} (h : x.toModel.unpack = .infinity s) :
    signBit x = (s == .negative) := by
  have hmax : exponentField x = 0x7ff :=
    parts_eq_none_iff.mp (parts_eq_none (isFinite_eq_false_of_unpack h))
  change UnpackedFloat.unpack Format.binary64 x.toBits.toBitVec = _ at h
  unfold UnpackedFloat.unpack at h
  dsimp only at h
  rw [if_pos ((unpackExponent_eq_max_iff x).mpr hmax), unpackSign_eq] at h
  split at h
  · injection h with hs
    rw [← hs]
    cases signBit x <;> rfl
  · cases h

theorem floor_of_unpack (h : x.toModel.unpack = .infinity .positive) : floor x = int64Max := by
  have hn : x.isNaN = false := by
    change x.toModel.unpack.isNaN = false
    rw [h]
    rfl
  simp only [floor, parts_eq_none (isFinite_eq_false_of_unpack h), hn, signBit_of_unpack h]
  rfl

end Arbor.Binary64
