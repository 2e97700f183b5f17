import Arbor.Proofs.Binary64.Parts

/-! # The real numbers that machine numbers stand for

A finite machine number stands for a whole number of at most fifty-three bits times a power
of two that is not too small. Such multiples stay apart from a power of two that they exceed.
-/

namespace Arbor.Binary64

/-- A number that fifty-three bits hold, for any exponent that is not too small. -/
def Representable (v : ℝ) : Prop :=
  ∃ (m : ℤ) (e : ℤ), |m| < 2 ^ 53 ∧ -1074 ≤ e ∧ v = m * 2 ^ e

namespace Representable

variable {v : ℝ}

theorem neg (h : Representable v) : Representable (-v) := by
  obtain ⟨m, e, hm, he, rfl⟩ := h
  exact ⟨-m, e, by rwa [abs_neg], he, by push_cast; ring⟩

theorem abs (h : Representable v) : Representable |v| := by
  rcases abs_choice v with hv | hv
  · rwa [hv]
  · rw [hv]
    exact h.neg

theorem two_zpow {k : ℤ} (h : -1074 ≤ k) : Representable (2 ^ k) :=
  ⟨1, k, by norm_num, h, by norm_num⟩

theorem zero : Representable 0 := ⟨0, -1074, by norm_num, le_rfl, by simp⟩

/-- A significand may also be the least one that takes another bit. -/
theorem of_abs_le {z e : ℤ} (hz : |z| ≤ 2 ^ 53) (he : -1074 ≤ e) :
    Representable (z * 2 ^ e) := by
  rcases hz.lt_or_eq with hlt | heq
  · exact ⟨z, e, hlt, he, rfl⟩
  · rcases (abs_eq (by norm_num)).mp heq with rfl | rfl
    · exact ⟨2 ^ 52, e + 1, by norm_num, by omega, by
        rw [zpow_add_one₀ two_ne_zero]; push_cast; ring⟩
    · exact ⟨-2 ^ 52, e + 1, by norm_num, by omega, by
        rw [zpow_add_one₀ two_ne_zero]; push_cast; ring⟩

theorem two_zpow_le_of_pos (h : Representable v) (hv : 0 < v) : (2 : ℝ) ^ (-1074 : ℤ) ≤ v := by
  obtain ⟨m, e, -, he, rfl⟩ := h
  have hpos : (0 : ℝ) < 2 ^ e := by positivity
  have hm : (1 : ℝ) ≤ m := by
    have : 0 < m := by exact_mod_cast (pos_iff_pos_of_mul_pos hv).mpr hpos
    exact_mod_cast this
  calc (2 : ℝ) ^ (-1074 : ℤ) ≤ 2 ^ e := zpow_le_zpow_right₀ one_le_two he
    _ ≤ m * 2 ^ e := le_mul_of_one_le_left hpos.le hm

theorem add_le_of_lt (h : Representable v) {k : ℤ} (hv : (2 : ℝ) ^ k < v) :
    (2 : ℝ) ^ k + 2 ^ (k - 52) ≤ v := by
  obtain ⟨m, e, hm, he, rfl⟩ := h
  have hpos : (0 : ℝ) < 2 ^ e := by positivity
  have hm' : (m : ℝ) < 2 ^ (53 : ℤ) := by
    have := (abs_lt.mp hm).2
    exact_mod_cast this
  have hk : k < e + 53 := by
    have hlt : (2 : ℝ) ^ k < 2 ^ (53 + e) := by
      rw [zpow_add₀ two_ne_zero]
      exact hv.trans (mul_lt_mul_of_pos_right hm' hpos)
    have := (zpow_lt_zpow_iff_right₀ one_lt_two).mp hlt
    omega
  obtain ⟨n, hn⟩ : ∃ n : ℕ, e = k - 52 + n := ⟨(e - (k - 52)).toNat, by omega⟩
  have hunit : (0 : ℝ) < 2 ^ (k - 52) := by positivity
  have hval : (m : ℝ) * 2 ^ e = ((m * 2 ^ n : ℤ) : ℝ) * 2 ^ (k - 52) := by
    rw [hn, zpow_add₀ two_ne_zero, zpow_natCast]
    push_cast
    ring
  have hpow : (2 : ℝ) ^ k = ((2 ^ 52 : ℤ) : ℝ) * 2 ^ (k - 52) := by
    rw [show k = 52 + (k - 52) by ring, zpow_add₀ two_ne_zero]
    norm_num
  rw [hval, hpow] at hv ⊢
  have hlt : (2 ^ 52 : ℤ) < m * 2 ^ n := by exact_mod_cast lt_of_mul_lt_mul_right hv hunit.le
  have hle : ((2 ^ 52 + 1 : ℤ) : ℝ) ≤ ((m * 2 ^ n : ℤ) : ℝ) := by exact_mod_cast hlt
  calc ((2 ^ 52 : ℤ) : ℝ) * 2 ^ (k - 52) + 2 ^ (k - 52)
      = ((2 ^ 52 + 1 : ℤ) : ℝ) * 2 ^ (k - 52) := by push_cast; ring
    _ ≤ ((m * 2 ^ n : ℤ) : ℝ) * 2 ^ (k - 52) := mul_le_mul_of_nonneg_right hle hunit.le

theorem le_of_lt_one (h : Representable v) (hv : v < 1) :
    v ≤ 1 - 2 ^ (-53 : ℤ) := by
  obtain ⟨m, e, hm, -, rfl⟩ := h
  by_cases he : -53 ≤ e
  · obtain ⟨n, hn⟩ : ∃ n : ℕ, e = -53 + n := ⟨(e + 53).toNat, by omega⟩
    have hval : (m : ℝ) * 2 ^ e = ((m * 2 ^ n : ℤ) : ℝ) * 2 ^ (-53 : ℤ) := by
      rw [hn, zpow_add₀ two_ne_zero, zpow_natCast]
      push_cast
      ring
    have hone : (1 : ℝ) = ((2 ^ 53 : ℤ) : ℝ) * 2 ^ (-53 : ℤ) := by norm_num
    rw [hval] at hv ⊢
    rw [hone] at hv
    have hlt : m * 2 ^ n < 2 ^ 53 := by
      exact_mod_cast lt_of_mul_lt_mul_right hv (by positivity)
    have hle : ((m * 2 ^ n : ℤ) : ℝ) ≤ ((2 ^ 53 - 1 : ℤ) : ℝ) := by
      exact_mod_cast Int.le_sub_one_of_lt hlt
    calc ((m * 2 ^ n : ℤ) : ℝ) * 2 ^ (-53 : ℤ) ≤ ((2 ^ 53 - 1 : ℤ) : ℝ) * 2 ^ (-53 : ℤ) :=
          mul_le_mul_of_nonneg_right hle (by positivity)
      _ = 1 - 2 ^ (-53 : ℤ) := by norm_num
  · have hsig : (m : ℝ) ≤ 2 ^ (53 : ℤ) := by exact_mod_cast (le_abs_self m).trans hm.le
    calc (m : ℝ) * 2 ^ e ≤ 2 ^ (53 : ℤ) * 2 ^ e := mul_le_mul_of_nonneg_right hsig (by positivity)
      _ ≤ 2 ^ (53 : ℤ) * 2 ^ (-54 : ℤ) :=
        mul_le_mul_of_nonneg_left (zpow_le_zpow_right₀ one_le_two (by omega)) (by positivity)
      _ ≤ 1 - 2 ^ (-53 : ℤ) := by norm_num

/-- All numbers lie on the grid of the least one above zero. -/
theorem exists_eq_mul (h : Representable v) :
    ∃ k : ℤ, v = k * 2 ^ (-1074 : ℤ) := by
  obtain ⟨m, e, -, he, rfl⟩ := h
  obtain ⟨n, rfl⟩ : ∃ n : ℕ, e = -1074 + n := ⟨(e + 1074).toNat, by omega⟩
  refine ⟨m * 2 ^ n, ?_⟩
  rw [zpow_add₀ two_ne_zero, zpow_natCast]
  push_cast
  ring

theorem add_two_zpow_le {w : ℝ} (hv : Representable v) (hw : Representable w)
    (h : v < w) : v + 2 ^ (-1074 : ℤ) ≤ w := by
  obtain ⟨j, rfl⟩ := hv.exists_eq_mul
  obtain ⟨k, rfl⟩ := hw.exists_eq_mul
  have hlt : j < k := by exact_mod_cast lt_of_mul_lt_mul_right h (by positivity)
  have hle : (j : ℝ) + 1 ≤ k := by exact_mod_cast hlt
  calc (j : ℝ) * 2 ^ (-1074 : ℤ) + 2 ^ (-1074 : ℤ) = (j + 1) * 2 ^ (-1074 : ℤ) := by ring
    _ ≤ k * 2 ^ (-1074 : ℤ) := mul_le_mul_of_nonneg_right hle (by positivity)

end Representable

def Parts.factor (d : Parts) : ℝ := if d.negative then -1 else 1

noncomputable def Parts.magnitude (d : Parts) : ℝ := d.significand * 2 ^ d.exponent

noncomputable def Parts.value (d : Parts) : ℝ := d.factor * d.magnitude

/-- The number that a machine number stands for; zero if it is not finite. -/
noncomputable def value (x : Float) : ℝ := ((parts? x).map Parts.value).getD 0

theorem Parts.magnitude_nonneg (d : Parts) : 0 ≤ d.magnitude := by
  rw [Parts.magnitude]
  positivity

theorem Parts.abs_value (d : Parts) : |d.value| = d.magnitude := by
  have hfactor : |d.factor| = 1 := by
    rw [Parts.factor]
    split <;> simp
  rw [Parts.value, abs_mul, hfactor, one_mul, abs_of_nonneg d.magnitude_nonneg]

theorem value_of_parts {x : Float} {d : Parts} (h : parts? x = some d) : value x = d.value := by
  rw [value, h]
  rfl

theorem Parts.Canonical.representable {d : Parts} (h : d.Canonical) :
    Representable d.magnitude := by
  refine ⟨d.significand, d.exponent, ?_, h.le_exponent, by rw [Parts.magnitude]; norm_cast⟩
  rw [abs_of_nonneg (by positivity)]
  exact_mod_cast h.significand_lt

theorem Parts.Canonical.representable_value {d : Parts} (h : d.Canonical) :
    Representable d.value := by
  rw [Parts.value, Parts.factor]
  split
  · rw [neg_one_mul]
    exact h.representable.neg
  · rw [one_mul]
    exact h.representable

theorem Parts.Canonical.representable_sub_unit {d : Parts} (h : d.Canonical) :
    Representable (d.value - 2 ^ d.exponent) := by
  obtain ⟨s, m, e⟩ := d
  have hlt : m < 2 ^ 53 := h.significand_lt
  have hle : -1074 ≤ e := h.le_exponent
  rw [Parts.value, Parts.factor, Parts.magnitude]
  cases s with
  | true =>
    have hval : -1 * (m * 2 ^ e) - 2 ^ e = ((-m - 1 : ℤ) : ℝ) * 2 ^ e := by
      push_cast
      ring
    rw [if_pos rfl, hval]
    exact .of_abs_le (by rw [abs_of_nonpos (by omega)]; omega) hle
  | false =>
    have hval : 1 * (m * 2 ^ e) - 2 ^ e = ((m - 1 : ℤ) : ℝ) * 2 ^ e := by
      push_cast
      ring
    rw [if_neg Bool.false_ne_true, hval]
    exact .of_abs_le (abs_le.mpr ⟨by omega, by omega⟩) hle

theorem representable_value (x : Float) : Representable (value x) := by
  cases h : parts? x with
  | none =>
    rw [value, h]
    exact Representable.zero
  | some d =>
    rw [value_of_parts h]
    exact (canonical_of_parts h).1.representable_value

theorem abs_value_lt (x : Float) : |value x| < 2 ^ (1024 : ℤ) := by
  cases h : parts? x with
  | none =>
    rw [value, h]
    simp
  | some d =>
    obtain ⟨hc, he⟩ := canonical_of_parts h
    have hsig : (d.significand : ℝ) < 2 ^ (53 : ℤ) := by exact_mod_cast hc.significand_lt
    rw [value_of_parts h, Parts.abs_value, Parts.magnitude]
    calc (d.significand : ℝ) * 2 ^ d.exponent < 2 ^ (53 : ℤ) * 2 ^ d.exponent :=
          mul_lt_mul_of_pos_right hsig (by positivity)
      _ = 2 ^ (53 + d.exponent) := (zpow_add₀ two_ne_zero _ _).symm
      _ ≤ 2 ^ (1024 : ℤ) := zpow_le_zpow_right₀ one_le_two (by omega)

end Arbor.Binary64
