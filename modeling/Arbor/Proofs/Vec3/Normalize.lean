import Arbor.Proofs.Binary64.Order
import Arbor.Vec3

/-! # The length of a vector and its scaling

A length that does not overflow is the largest coordinate, up to a factor of two. So scaling to
unit length keeps every finite vector finite, and the result has a length that can be divided
by again.
-/

namespace Arbor.Vec3

open Binary64

variable {a : Vec3 Float}

/-- Every coordinate is at most as large. -/
def Within (a : Vec3 Float) (r : ℝ) : Prop :=
  |value a.x| ≤ r ∧ |value a.y| ≤ r ∧ |value a.z| ≤ r

/-- Some coordinate is at least as large. -/
def Reaches (a : Vec3 Float) (r : ℝ) : Prop :=
  r ≤ |value a.x| ∨ r ≤ |value a.y| ∨ r ≤ |value a.z|

theorem isFinite_iff :
    a.isFinite = true ↔ a.x.isFinite = true ∧ a.y.isFinite = true ∧ a.z.isFinite = true := by
  rw [isFinite, Bool.and_eq_true, Bool.and_eq_true, and_assoc]

theorem within_of_not_reaches {r : ℝ} (h : ¬a.Reaches r) : a.Within r := by
  rw [Reaches, not_or, not_or, not_le, not_le, not_le] at h
  exact ⟨h.1.le, h.2.1.le, h.2.2.le⟩

/-! ## Squared length -/

section Squares

variable (ha : a.isFinite = true)

include ha

theorem atLeastZero_squares : AtLeastZero (a.x * a.x) ∧ AtLeastZero (a.y * a.y) ∧
    AtLeastZero (a.z * a.z) := by
  obtain ⟨hx, hy, hz⟩ := isFinite_iff.mp ha
  exact ⟨atLeastZero_mul_self hx, atLeastZero_mul_self hy, atLeastZero_mul_self hz⟩

theorem atLeastZero_dot_self : AtLeastZero (a.dot a) := by
  obtain ⟨hx, hy, hz⟩ := atLeastZero_squares ha
  exact (hx.add hy).add hz

theorem atLeastZero_length : AtLeastZero a.length := (atLeastZero_dot_self ha).sqrt

theorem isFinite_dot_of_length (hl : a.length.isFinite = true) : (a.dot a).isFinite = true :=
  (atLeastZero_dot_self ha).isFinite_of_sqrt hl

theorem isFinite_squares (hd : (a.dot a).isFinite = true) :
    (a.x * a.x + a.y * a.y).isFinite = true ∧ (a.x * a.x).isFinite = true ∧
      (a.y * a.y).isFinite = true ∧ (a.z * a.z).isFinite = true := by
  obtain ⟨hx, hy, hz⟩ := atLeastZero_squares ha
  obtain ⟨hxy, hfz⟩ := (hx.add hy).isFinite_of_add hz hd
  obtain ⟨hfx, hfy⟩ := hx.isFinite_of_add hy hxy
  exact ⟨hxy, hfx, hfy, hfz⟩

variable (hd : (a.dot a).isFinite = true)

include hd

theorem value_squares_le_dot : value (a.x * a.x) ≤ value (a.dot a) ∧
    value (a.y * a.y) ≤ value (a.dot a) ∧ value (a.z * a.z) ≤ value (a.dot a) := by
  obtain ⟨hx, hy, hz⟩ := atLeastZero_squares ha
  obtain ⟨hxy, hfx, hfy, hfz⟩ := isFinite_squares ha hd
  have hsum := isRounding_add hfx hfy
  have hdot := isRounding_add hxy hfz
  have hle : value (a.x * a.x + a.y * a.y) ≤ value (a.dot a) :=
    hdot.le_value hd (representable_value _) (le_add_of_nonneg_right (hz.value_nonneg hfz))
  refine ⟨le_trans ?_ hle, le_trans ?_ hle, ?_⟩
  · exact hsum.le_value hxy (representable_value _)
      (le_add_of_nonneg_right (hy.value_nonneg hfy))
  · exact hsum.le_value hxy (representable_value _)
      (le_add_of_nonneg_left (hx.value_nonneg hfx))
  · exact hdot.le_value hd (representable_value _)
      (le_add_of_nonneg_left ((hx.add hy).value_nonneg hxy))

theorem le_dot_self {r : ℝ} (hr : 0 ≤ r) (hrep : Representable (r ^ 2)) (h : a.Reaches r) :
    r ^ 2 ≤ value (a.dot a) := by
  obtain ⟨hx, hy, hz⟩ := isFinite_iff.mp ha
  obtain ⟨-, hfx, hfy, hfz⟩ := isFinite_squares ha hd
  obtain ⟨hlx, hly, hlz⟩ := value_squares_le_dot ha hd
  have hsquare {v : ℝ} (hv : r ≤ |v|) : r ^ 2 ≤ v * v := by
    rw [← sq, ← sq_abs v]
    exact pow_le_pow_left₀ hr hv 2
  rcases h with h | h | h
  · exact ((isRounding_mul hx hx).le_value hfx hrep (hsquare h)).trans hlx
  · exact ((isRounding_mul hy hy).le_value hfy hrep (hsquare h)).trans hly
  · exact ((isRounding_mul hz hz).le_value hfz hrep (hsquare h)).trans hlz

theorem dot_self_le {k : ℤ} (hk : -537 ≤ k) (h : a.Within (2 ^ k)) :
    value (a.dot a) ≤ 2 ^ (2 * k + 2) := by
  obtain ⟨hx, hy, hz⟩ := isFinite_iff.mp ha
  obtain ⟨hxy, hfx, hfy, hfz⟩ := isFinite_squares ha hd
  have hsquare {v : ℝ} (hv : |v| ≤ 2 ^ k) : v * v ≤ 2 ^ (2 * k) := by
    rw [← sq, ← sq_abs v, mul_comm, zpow_mul, zpow_ofNat]
    exact pow_le_pow_left₀ (abs_nonneg v) hv 2
  have hdouble (j : ℤ) : (2 : ℝ) ^ (j + 1) = 2 ^ j + 2 ^ j := by
    rw [zpow_add_one₀ two_ne_zero, mul_two]
  have hrep (i : ℤ) (hi : 0 ≤ i) : Representable (2 ^ (2 * k + i)) :=
    Representable.two_zpow (by omega)
  have hrep0 : Representable (2 ^ (2 * k)) := Representable.two_zpow (by omega)
  have hbx := (isRounding_mul hx hx).value_le hfx hrep0 (hsquare h.1)
  have hby := (isRounding_mul hy hy).value_le hfy hrep0 (hsquare h.2.1)
  have hbz := (isRounding_mul hz hz).value_le hfz hrep0 (hsquare h.2.2)
  have hbxy : value (a.x * a.x + a.y * a.y) ≤ 2 ^ (2 * k + 1) := by
    refine (isRounding_add hfx hfy).value_le hxy (hrep 1 zero_le_one) ?_
    rw [hdouble]
    exact add_le_add hbx hby
  refine (isRounding_add hxy hfz).value_le hd (hrep 2 zero_le_two) ?_
  rw [show 2 * k + 2 = 2 * k + 1 + 1 by ring, hdouble, hdouble]
  have hpos : (0 : ℝ) < 2 ^ (2 * k) := by positivity
  rw [hdouble] at hbxy
  linarith

end Squares

/-! ## Length -/

section Length

variable (ha : a.isFinite = true)

include ha

theorem isFinite_length_of_within (h : a.Within 2) : a.length.isFinite = true := by
  obtain ⟨hx, hy, hz⟩ := isFinite_iff.mp ha
  have hsquare {c : Float} (hc : c.isFinite = true) (hv : |value c| ≤ 2) :
      (c * c).isFinite = true ∧ |value (c * c)| ≤ 2 ^ (2 : ℤ) := by
    refine (isRounding_mul hc hc).of_abs_le_two_zpow (by norm_num) (by norm_num) ?_
    rw [abs_mul]
    calc |value c| * |value c| ≤ 2 * 2 := mul_le_mul hv hv (abs_nonneg _) zero_le_two
      _ = 2 ^ (2 : ℤ) := by norm_num
  have hsum {u v : Float} {k : ℤ} (hk : 0 ≤ k) (hk' : k ≤ 1022)
      (hu : u.isFinite = true ∧ |value u| ≤ 2 ^ k) (hv : v.isFinite = true ∧ |value v| ≤ 2 ^ k) :
      (u + v).isFinite = true ∧ |value (u + v)| ≤ 2 ^ (k + 1) := by
    refine (isRounding_add hu.1 hv.1).of_abs_le_two_zpow (by omega) (by omega) ?_
    rw [zpow_add_one₀ two_ne_zero, mul_two]
    exact (abs_add_le _ _).trans (add_le_add hu.2 hv.2)
  obtain ⟨hfz, hbz⟩ := hsquare hz h.2.2
  have hxy := hsum (by norm_num) (by norm_num) (hsquare hx h.1) (hsquare hy h.2.1)
  have hd := hsum (by norm_num) (by norm_num) hxy
    ⟨hfz, hbz.trans (zpow_le_zpow_right₀ one_le_two (by norm_num))⟩
  have hroot := isRounding_sqrt hd.1 ((atLeastZero_dot_self ha).value_nonneg hd.1)
  have hle : |√(value (a.dot a))| ≤ 2 ^ (2 : ℤ) := by
    rw [abs_of_nonneg (Real.sqrt_nonneg _), Real.sqrt_le_iff]
    exact ⟨by positivity, ((le_abs_self _).trans hd.2).trans (by norm_num)⟩
  exact (hroot.of_abs_le_two_zpow (by norm_num) (by norm_num) hle).1

variable (hl : a.length.isFinite = true)

include hl

theorem isRounding_length : IsRounding √(value (a.dot a)) a.length := by
  have hd := isFinite_dot_of_length ha hl
  exact isRounding_sqrt hd ((atLeastZero_dot_self ha).value_nonneg hd)

theorem le_length {k : ℤ} (hk : -537 ≤ k) (h : a.Reaches (2 ^ k)) : 2 ^ k ≤ value a.length := by
  have hrep : Representable ((2 ^ k) ^ 2) := by
    rw [← zpow_natCast, ← zpow_mul]
    exact Representable.two_zpow (by push_cast; omega)
  refine (isRounding_length ha hl).le_value hl (Representable.two_zpow (by omega)) ?_
  exact Real.le_sqrt_of_sq_le (le_dot_self ha (isFinite_dot_of_length ha hl) (by positivity) hrep h)

theorem length_le {k : ℤ} (hk : -537 ≤ k) (h : a.Within (2 ^ k)) :
    value a.length ≤ 2 ^ (k + 1) := by
  refine (isRounding_length ha hl).value_le hl (Representable.two_zpow (by omega)) ?_
  refine Real.sqrt_le_iff.mpr ⟨by positivity, ?_⟩
  rw [← zpow_natCast, ← zpow_mul]
  refine (dot_self_le ha (isFinite_dot_of_length ha hl) hk h).trans (le_of_eq ?_)
  congr 1
  push_cast
  ring

theorem two_zpow_le_length (h0 : value a.length ≠ 0) : 2 ^ (-537 : ℤ) ≤ value a.length := by
  have hd := isFinite_dot_of_length ha hl
  have hnonneg := (atLeastZero_dot_self ha).value_nonneg hd
  have hround := isRounding_length ha hl
  have hpos : 0 < value (a.dot a) := by
    refine hnonneg.lt_of_ne fun hzero => h0 ?_
    rw [← hzero, Real.sqrt_zero] at hround
    exact hround.value_eq_of_zero.2
  refine hround.le_value hl (Representable.two_zpow (by norm_num)) (Real.le_sqrt_of_sq_le ?_)
  rw [← zpow_natCast, ← zpow_mul]
  exact (representable_value _).two_zpow_le_of_pos hpos

theorem reaches_of_length_ne_zero (h0 : value a.length ≠ 0) : a.Reaches (2 ^ (-538 : ℤ)) := by
  by_contra h
  have hd := isFinite_dot_of_length ha hl
  obtain ⟨hx, hy, hz⟩ := isFinite_iff.mp ha
  obtain ⟨hxy, hfx, hfy, hfz⟩ := isFinite_squares ha hd
  have hsmall := within_of_not_reaches h
  have hsquare {c : Float} (hc : c.isFinite = true) (hf : (c * c).isFinite = true)
      (hv : |value c| ≤ 2 ^ (-538 : ℤ)) : value (c * c) = 0 := by
    refine (isRounding_mul hc hc).value_eq_zero hf ?_
    rw [abs_mul]
    calc |value c| * |value c| ≤ 2 ^ (-538 : ℤ) * 2 ^ (-538 : ℤ) :=
          mul_le_mul hv hv (abs_nonneg _) (by positivity)
      _ = 2 ^ (-1076 : ℤ) := by rw [← zpow_add₀ two_ne_zero]; norm_num
      _ < 2 ^ (-1075 : ℤ) := zpow_lt_zpow_right₀ one_lt_two (by norm_num)
  have hsum := isRounding_add hfx hfy
  have hdot := isRounding_add hxy hfz
  have hround := isRounding_length ha hl
  rw [hsquare hx hfx hsmall.1, hsquare hy hfy hsmall.2.1, add_zero] at hsum
  rw [hsquare hz hfz hsmall.2.2, hsum.value_eq_of_zero.2, add_zero] at hdot
  rw [show value (a.dot a) = 0 from hdot.value_eq_of_zero.2, Real.sqrt_zero] at hround
  exact h0 hround.value_eq_of_zero.2

end Length

/-! ## Unit length -/

section Unit

theorem normalize_of_lt (h : Scalar.lt 0 a.length = true) :
    a.normalize = a.scale (1 / a.length) := if_pos h

theorem normalize_of_not_lt (h : ¬Scalar.lt 0 a.length = true) : a.normalize = a := if_neg h

theorem exists_two_zpow_le_length (ha : a.isFinite = true) (hl : a.length.isFinite = true)
    (h0 : value a.length ≠ 0) {c : Float} (hc : ∀ r, r ≤ |value c| → a.Reaches r) :
    ∃ k : ℤ, -537 ≤ k ∧ k < 1024 ∧ |value c| ≤ 2 ^ (k + 1) ∧ 2 ^ k ≤ value a.length := by
  by_cases hsmall : |value c| < 2 ^ (-537 : ℤ)
  · refine ⟨-537, le_rfl, by norm_num, hsmall.le.trans ?_, two_zpow_le_length ha hl h0⟩
    exact zpow_le_zpow_right₀ one_le_two (by norm_num)
  · have hpos : 0 < |value c| := lt_of_lt_of_le (by positivity) (not_lt.mp hsmall)
    obtain ⟨k, hle, hlt⟩ := exists_mem_Ico_zpow hpos one_lt_two
    have hk : -537 < k + 1 :=
      (zpow_lt_zpow_iff_right₀ one_lt_two).mp ((not_lt.mp hsmall).trans_lt hlt)
    have hk' : k < 1024 :=
      (zpow_lt_zpow_iff_right₀ one_lt_two).mp (hle.trans_lt (abs_value_lt c))
    exact ⟨k, by omega, hk', hlt.le, le_length ha hl (by omega) (hc _ hle)⟩

theorem isRounding_one_div (hl : a.length.isFinite = true) (h0 : value a.length ≠ 0) :
    IsRounding (1 / value a.length) (1 / a.length) := by
  have h := isRounding_div isFinite_one hl h0
  rwa [value_one] at h

theorem one_div_length_le (hl : a.length.isFinite = true) {k : ℤ} (hk : -537 ≤ k)
    (hk' : k < 1024) (hle : 2 ^ k ≤ value a.length) :
    (1 / a.length).isFinite = true ∧ |value (1 / a.length)| ≤ 2 ^ (-k) := by
  have hpos : (0 : ℝ) < 2 ^ k := by positivity
  refine (isRounding_one_div hl (hpos.trans_le hle).ne').of_abs_le_two_zpow (by omega) (by omega) ?_
  rw [abs_of_nonneg (one_div_nonneg.mpr (hpos.le.trans hle)), zpow_neg, one_div]
  exact inv_anti₀ hpos hle

theorem coordinate_div_length (ha : a.isFinite = true) (hl : a.length.isFinite = true)
    (h0 : value a.length ≠ 0) {c : Float} (hf : c.isFinite = true)
    (hc : ∀ r, r ≤ |value c| → a.Reaches r) :
    (c * (1 / a.length)).isFinite = true ∧ |value (c * (1 / a.length))| ≤ 2 := by
  obtain ⟨k, hk, hk', hle, hlength⟩ := exists_two_zpow_le_length ha hl h0 hc
  obtain ⟨hfi, hbi⟩ := one_div_length_le hl hk hk' hlength
  have hprod : |value c * value (1 / a.length)| ≤ 2 ^ (1 : ℤ) := by
    rw [abs_mul]
    calc |value c| * |value (1 / a.length)| ≤ 2 ^ (k + 1) * 2 ^ (-k) :=
          mul_le_mul hle hbi (abs_nonneg _) (by positivity)
      _ = 2 ^ (1 : ℤ) := by rw [← zpow_add₀ two_ne_zero]; congr 1; ring
  simpa only [zpow_one] using
    (isRounding_mul hf hfi).of_abs_le_two_zpow (by norm_num) (by norm_num) hprod

theorem coordinate_div_infinite (hl : a.length.toModel.unpack = .infinity .positive) {c : Float}
    (hf : c.isFinite = true) :
    (c * (1 / a.length)).isFinite = true ∧ |value (c * (1 / a.length))| ≤ 2 := by
  obtain ⟨hfi, hvi⟩ : (1 / a.length).isFinite = true ∧ value (1 / a.length) = 0 :=
    (isRounding_div_of_unpack isFinite_one hl).value_eq_of_zero
  have hround := isRounding_mul hf hfi
  rw [hvi, mul_zero] at hround
  obtain ⟨hfin, hv⟩ := hround.value_eq_of_zero
  rw [hv, abs_zero]
  exact ⟨hfin, zero_le_two⟩

/-- Every finite vector is scaled to a finite one, even if its length overflows. -/
theorem normalize_isFinite_within (ha : a.isFinite = true) :
    a.normalize.isFinite = true ∧ a.normalize.Within 2 := by
  have hlen := atLeastZero_length ha
  obtain ⟨hx, hy, hz⟩ := isFinite_iff.mp ha
  by_cases hl : a.length.isFinite = true
  · by_cases h0 : value a.length = 0
    · have hlt : ¬Scalar.lt 0 a.length = true := by
        rw [lt_zero_iff_of_isFinite hl, h0]
        exact lt_irrefl 0
      rw [normalize_of_not_lt hlt]
      refine ⟨ha, within_of_not_reaches fun h => ?_⟩
      have hle := le_length ha hl (by norm_num : (-537 : ℤ) ≤ 1) (by rwa [zpow_one])
      rw [h0, zpow_one] at hle
      exact absurd hle (by norm_num)
    · have hlt : Scalar.lt 0 a.length = true :=
        (lt_zero_iff_of_isFinite hl).mpr ((hlen.value_nonneg hl).lt_of_ne' h0)
      rw [normalize_of_lt hlt, isFinite_iff]
      obtain ⟨hfx, hbx⟩ := coordinate_div_length ha hl h0 hx fun _ => Or.inl
      obtain ⟨hfy, hby⟩ := coordinate_div_length ha hl h0 hy fun _ h => Or.inr (Or.inl h)
      obtain ⟨hfz, hbz⟩ := coordinate_div_length ha hl h0 hz fun _ h => Or.inr (Or.inr h)
      exact ⟨⟨hfx, hfy, hfz⟩, hbx, hby, hbz⟩
  · have hinf := hlen.unpack_of_not_isFinite (Bool.not_eq_true _ ▸ hl)
    rw [normalize_of_lt (lt_zero_of_unpack hinf), isFinite_iff]
    obtain ⟨hfx, hbx⟩ := coordinate_div_infinite hinf hx
    obtain ⟨hfy, hby⟩ := coordinate_div_infinite hinf hy
    obtain ⟨hfz, hbz⟩ := coordinate_div_infinite hinf hz
    exact ⟨⟨hfx, hfy, hfz⟩, hbx, hby, hbz⟩

theorem exists_reaches_within {j : ℤ} (h : a.Reaches (2 ^ j)) :
    ∃ k : ℤ, j ≤ k ∧ k < 1024 ∧ a.Reaches (2 ^ k) ∧ a.Within (2 ^ (k + 1)) := by
  obtain ⟨m, hm⟩ : ∃ m, m = |value a.x| ⊔ (|value a.y| ⊔ |value a.z|) := ⟨_, rfl⟩
  have hreach {r : ℝ} : a.Reaches r ↔ r ≤ m := by
    rw [Reaches, hm, le_sup_iff, le_sup_iff]
  have hjm := hreach.mp h
  obtain ⟨k, hle, hlt⟩ := exists_mem_Ico_zpow ((by positivity : (0 : ℝ) < 2 ^ j).trans_le hjm)
    one_lt_two
  have hm1024 : m < 2 ^ (1024 : ℤ) := by
    rw [hm]
    exact max_lt (abs_value_lt _) (max_lt (abs_value_lt _) (abs_value_lt _))
  have hjk : j < k + 1 := (zpow_lt_zpow_iff_right₀ one_lt_two).mp (hjm.trans_lt hlt)
  have hk : k < 1024 := (zpow_lt_zpow_iff_right₀ one_lt_two).mp (hle.trans_lt hm1024)
  refine ⟨k, by omega, hk, hreach.mpr hle, ?_⟩
  exact within_of_not_reaches fun h' => (hreach.mp h').not_gt hlt

theorem reaches_normalize (ha : a.isFinite = true) (hl : a.length.isFinite = true)
    (h0 : value a.length ≠ 0) : a.normalize.Reaches (2 ^ (-2 : ℤ)) := by
  obtain ⟨k, hk, hk', hreach, hwithin⟩ :=
    exists_reaches_within (reaches_of_length_ne_zero ha hl h0)
  have hlpos : 0 < value a.length :=
    ((atLeastZero_length ha).value_nonneg hl).lt_of_ne' h0
  have hlength : value a.length ≤ 2 ^ (k + 2) := by
    have hle := length_le ha hl (by omega) hwithin
    rwa [add_assoc, one_add_one_eq_two] at hle
  have hfi := (one_div_length_le hl le_rfl (by norm_num) (two_zpow_le_length ha hl h0)).1
  have hinv : (2 : ℝ) ^ (-(k + 2)) ≤ 1 / value a.length := by
    rw [zpow_neg, one_div]
    exact inv_anti₀ hlpos hlength
  have hbi := (isRounding_one_div hl h0).le_value hfi (Representable.two_zpow (by omega)) hinv
  obtain ⟨hx, hy, hz⟩ := isFinite_iff.mp ha
  have hlt : Scalar.lt 0 a.length = true := (lt_zero_iff_of_isFinite hl).mpr hlpos
  have hfin := (normalize_isFinite_within ha).1
  rw [normalize_of_lt hlt] at hfin ⊢
  obtain ⟨hfx, hfy, hfz⟩ := isFinite_iff.mp hfin
  have hcoord {c : Float} (hc : c.isFinite = true) (hf : (c * (1 / a.length)).isFinite = true)
      (h : 2 ^ k ≤ |value c|) : 2 ^ (-2 : ℤ) ≤ |value (c * (1 / a.length))| := by
    refine (isRounding_mul hc hfi).le_abs_value hf (Representable.two_zpow (by norm_num)) ?_
    rw [abs_mul]
    calc (2 : ℝ) ^ (-2 : ℤ) = 2 ^ k * 2 ^ (-(k + 2)) := by
          rw [← zpow_add₀ two_ne_zero]; congr 1; ring
      _ ≤ |value c| * |value (1 / a.length)| :=
        mul_le_mul h (hbi.trans (le_abs_self _)) (by positivity) (abs_nonneg _)
  rcases hreach with h | h | h
  · exact Or.inl (hcoord hx hfx h)
  · exact Or.inr (Or.inl (hcoord hy hfy h))
  · exact Or.inr (Or.inr (hcoord hz hfz h))

theorem length_normalize (ha : a.isFinite = true) (hl : a.length.isFinite = true)
    (h0 : value a.length ≠ 0) :
    a.normalize.length.isFinite = true ∧ value a.normalize.length ≠ 0 := by
  obtain ⟨hfin, hwithin⟩ := normalize_isFinite_within ha
  have hln := isFinite_length_of_within hfin hwithin
  have hle := le_length hfin hln (by norm_num) (reaches_normalize ha hl h0)
  exact ⟨hln, ((by positivity : (0 : ℝ) < 2 ^ (-2 : ℤ)).trans_le hle).ne'⟩

end Unit

end Arbor.Vec3
