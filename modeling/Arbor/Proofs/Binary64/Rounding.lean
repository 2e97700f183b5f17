import Arbor.Proofs.Binary64.Value

/-! # Rounding to machine numbers

A mantissa with a round bit and a sticky bit stands for the reals between it and the next
mantissa. Shifting keeps what it stands for, and the rounded mantissa is nearest to it. So
the result of an operation is nearest to the real result among all representable numbers,
and it is finite unless the real result is too large.
-/

namespace Arbor.Binary64

open Float.Model UnpackedFloat

/-! ## Round and sticky bits -/

/-- A real number lies above the mantissa and below the next one. The round bit tells whether
it lies in the upper half, the sticky bit whether it lies beside the mantissa and the middle. -/
structure Stands (em : ExtendedMantissa) (x : ℝ) : Prop where
  le : (em.mantissa : ℝ) ≤ x
  lt : x < em.mantissa + 1
  round : em.roundBit = true ↔ 2 * (em.mantissa : ℝ) + 1 ≤ 2 * x
  sticky : em.stickyBit = false ↔ x = em.mantissa ∨ 2 * x = 2 * em.mantissa + 1

/-- The accuracy of a mantissa below a real number: which whole number is nearer. -/
noncomputable def accuracyOf (m : ℕ) (x : ℝ) : Accuracy :=
  if x = m then .exact else .inexact (compare (x - m) (m + 1 - x))

namespace Stands

variable {em : ExtendedMantissa} {x : ℝ}

theorem ofAccuracy {m : ℕ} (hle : (m : ℝ) ≤ x) (hlt : x < m + 1) :
    Stands (.ofMantissaAndAccuracy m (accuracyOf m x)) x := by
  unfold accuracyOf
  split_ifs with h
  · exact ⟨hle, hlt, by simp [ExtendedMantissa.ofMantissaAndAccuracy, h],
      by simp [ExtendedMantissa.ofMantissaAndAccuracy, h]⟩
  · rcases lt_trichotomy (2 * x) (2 * m + 1) with ho | ho | ho
    · rw [compare_lt_iff_lt.mpr (by linarith)]
      exact ⟨hle, hlt, by simpa [ExtendedMantissa.ofMantissaAndAccuracy] using ho,
        by simpa [ExtendedMantissa.ofMantissaAndAccuracy] using ⟨h, ho.ne⟩⟩
    · rw [compare_eq_iff_eq.mpr (by linarith)]
      exact ⟨hle, hlt, by simpa [ExtendedMantissa.ofMantissaAndAccuracy] using ho.ge,
        by simpa [ExtendedMantissa.ofMantissaAndAccuracy] using Or.inr ho⟩
    · rw [compare_gt_iff_gt.mpr (by linarith)]
      exact ⟨hle, hlt, by simpa [ExtendedMantissa.ofMantissaAndAccuracy] using ho.le,
        by simpa [ExtendedMantissa.ofMantissaAndAccuracy] using ⟨h, ho.ne'⟩⟩

theorem exact (m : ℕ) : Stands (.ofMantissaAndAccuracy m .exact) m := by
  have h : accuracyOf m m = .exact := if_pos rfl
  rw [← h]
  exact ofAccuracy le_rfl (lt_add_one _)

theorem bits_eq_false_iff (h : Stands em x) :
    (em.roundBit || em.stickyBit) = false ↔ x = em.mantissa := by
  have hround : em.roundBit = false ↔ 2 * x < 2 * em.mantissa + 1 := by
    rw [← not_le, ← h.round, Bool.not_eq_true]
  rw [Bool.or_eq_false_iff, hround, h.sticky]
  constructor
  · rintro ⟨hlt, rfl | heq⟩
    · rfl
    · exact absurd heq hlt.ne
  · rintro rfl
    exact ⟨lt_add_one _, Or.inl rfl⟩

theorem shiftRightOne (h : Stands em x) : Stands em.shiftRightOne (x / 2) := by
  have hle := h.le
  have hlt := h.lt
  have hm : (em.mantissa : ℝ) = 2 * (em.mantissa / 2 : ℕ) + (em.mantissa % 2 : ℕ) := by
    exact_mod_cast (Nat.div_add_mod em.mantissa 2).symm
  have hbits := h.bits_eq_false_iff
  rcases Nat.mod_two_eq_zero_or_one em.mantissa with h0 | h1
  · rw [h0, Nat.cast_zero, add_zero] at hm
    refine ⟨?_, ?_, ?_, ?_⟩ <;> simp only [ExtendedMantissa.shiftRightOne]
    · linarith
    · linarith
    · simp only [h0, bne_self_eq_false, Bool.false_eq_true, false_iff, not_le]
      linarith
    · rw [hbits, hm]
      constructor
      · exact fun hx => Or.inl (by linarith)
      · rintro (hx | hx) <;> linarith
  · rw [h1, Nat.cast_one] at hm
    refine ⟨?_, ?_, ?_, ?_⟩ <;> simp only [ExtendedMantissa.shiftRightOne]
    · linarith
    · linarith
    · simp only [h1, true_iff, show (1 != 0) = true from rfl]
      linarith
    · rw [hbits, hm]
      constructor
      · exact fun hx => Or.inr (by linarith)
      · rintro (hx | hx) <;> linarith

theorem shiftRight (h : Stands em x) (n : ℕ) : Stands (em >>> n) (x / 2 ^ n) := by
  induction n with
  | zero => rwa [pow_zero, div_one]
  | succ n ih =>
    have hstep : em >>> (n + 1) = (em >>> n).shiftRightOne := rfl
    have hdiv : x / 2 ^ (n + 1) = x / 2 ^ n / 2 := by rw [pow_succ, div_mul_eq_div_div]
    rw [hstep, hdiv]
    exact ih.shiftRightOne

theorem abs_roundedMantissa_sub_le (h : Stands em x) : |(em.roundedMantissa : ℝ) - x| ≤ 1 / 2 := by
  have hle := h.le
  have hlt := h.lt
  have hround := h.round
  have hsticky := h.sticky
  obtain ⟨m, r, s⟩ := em
  rw [abs_le]
  cases r
  · have hlow : 2 * x < 2 * m + 1 := by simpa using hround
    have hr : ExtendedMantissa.roundedMantissa ⟨m, false, s⟩ = m := by cases s <;> rfl
    rw [hr]
    constructor <;> linarith
  · have hhigh : 2 * (m : ℝ) + 1 ≤ 2 * x := by simpa using hround
    cases s
    · have hmid : 2 * x = 2 * m + 1 := by
        rcases hsticky.mp rfl with hx | hx
        · exact absurd hhigh (by rw [hx]; simp)
        · exact hx
      have hr : ExtendedMantissa.roundedMantissa ⟨m, true, false⟩ = m + m % 2 := rfl
      rw [hr]
      rcases Nat.mod_two_eq_zero_or_one m with h0 | h1
      · rw [h0, add_zero]
        constructor <;> linarith
      · rw [h1, Nat.cast_add, Nat.cast_one]
        constructor <;> linarith
    · have hr : ExtendedMantissa.roundedMantissa ⟨m, true, true⟩ = m + 1 := rfl
      rw [hr, Nat.cast_add, Nat.cast_one]
      constructor <;> linarith

theorem roundedMantissa_nearest (h : Stands em x) (z : ℤ) :
    |(em.roundedMantissa : ℝ) - x| ≤ |(z : ℝ) - x| := by
  have hhalf := h.abs_roundedMantissa_sub_le
  by_cases hz : z = em.roundedMantissa
  · rw [hz, Int.cast_natCast]
  · have hone : (1 : ℝ) ≤ |(z : ℝ) - em.roundedMantissa| := by
      have : 1 ≤ |z - em.roundedMantissa| := Int.one_le_abs (sub_ne_zero.mpr hz)
      exact_mod_cast this
    have htri := abs_sub_le (z : ℝ) x em.roundedMantissa
    rw [abs_sub_comm x] at htri
    linarith

theorem le_roundedMantissa (h : Stands em x) :
    em.mantissa ≤ em.roundedMantissa ∧ em.roundedMantissa ≤ em.mantissa + 1 := by
  have hhalf := abs_le.mp h.abs_roundedMantissa_sub_le
  have hle := h.le
  have hlt := h.lt
  have h₁ : (em.mantissa : ℝ) < em.roundedMantissa + 1 := by linarith
  have h₂ : (em.roundedMantissa : ℝ) < em.mantissa + 2 := by linarith
  constructor
  · exact_mod_cast Nat.lt_succ_iff.mp (by exact_mod_cast h₁)
  · exact Nat.lt_succ_iff.mp (by exact_mod_cast h₂)

end Stands

/-! ## Rounding a mantissa with its exponent -/

theorem two_zpow_le_of_totalExponent {m : ℕ} (hm : m ≠ 0) (e : ℤ) :
    (2 : ℝ) ^ (totalExponent m e - 1) ≤ m * 2 ^ e ∧ (m : ℝ) * 2 ^ e < 2 ^ totalExponent m e := by
  have hlow : (2 : ℝ) ^ m.log2 ≤ m := by exact_mod_cast Nat.log2_self_le hm
  have hhigh : (m : ℝ) < 2 ^ (m.log2 + 1) := by exact_mod_cast Nat.lt_log2_self
  have hpos : (0 : ℝ) < 2 ^ e := by positivity
  constructor
  · rw [totalExponent, show (m.log2 : ℤ) + 1 + e - 1 = m.log2 + e by ring, zpow_add₀ two_ne_zero,
      zpow_natCast]
    exact mul_le_mul_of_nonneg_right hlow hpos.le
  · rw [totalExponent, zpow_add₀ two_ne_zero]
    exact mul_lt_mul_of_pos_right (by exact_mod_cast hhigh) hpos

theorem targetExponent_eq (t : ℤ) : Format.binary64.targetExponent t = max (t - 53) (-1074) := rfl

def Parts.ofSign (s : Sign) (m : ℕ) (e : ℤ) : Parts := ⟨s == .negative, m, e⟩

theorem unpacked_ofSign (s : Sign) (m : ℕ) (e : ℤ) :
    (Parts.ofSign s m e).unpacked =
      if h : m = 0 then .zero s else .finite s m e (Nat.pos_of_ne_zero h) := by
  cases s <;> rfl

/-- A rounded mantissa is shifted once more only if it has a digit too many. -/
theorem exists_carry (s : Sign) {r : ℕ} {t : ℤ} (hr : r ≤ 2 ^ 53) (ht : -1074 ≤ t)
    (hlow : t ≠ -1074 → 2 ^ 52 ≤ r) :
    ∃ d : Parts, d.Canonical ∧ d.negative = (s == .negative) ∧ d.magnitude = r * 2 ^ t ∧
      d.unpacked =
        (let (em, e) := shiftToTargetExponent Format.binary64 r t .exact
        if h : em.mantissa = 0 then .zero s
        else .finite s em.mantissa e (Nat.pos_of_ne_zero h)) := by
  rcases hr.lt_or_eq with hlt | rfl
  · have htarget : Format.binary64.targetExponent (totalExponent r t) ≤ t := by
      rw [targetExponent_eq, totalExponent]
      have hlog : r.log2 ≤ 52 := by
        by_cases h0 : r = 0
        · rw [h0]
          decide
        · exact Nat.lt_succ_iff.mp ((Nat.log2_lt h0).mpr hlt)
      omega
    refine ⟨.ofSign s r t, ⟨hlt, ht, hlow⟩, rfl, rfl, ?_⟩
    have hshift : (Format.binary64.targetExponent (totalExponent r t) - t).toNat = 0 := by omega
    rw [unpacked_ofSign, shiftToTargetExponent, shiftToExponent, hshift]
    simp only [Nat.cast_zero, add_zero]
    rfl
  · refine ⟨.ofSign s (2 ^ 52) (t + 1), ⟨(by decide : 2 ^ 52 < 2 ^ 53),
      (by omega : -1074 ≤ t + 1), fun _ => le_rfl⟩, rfl, ?_, ?_⟩
    · rw [Parts.magnitude, Parts.ofSign, zpow_add₀ two_ne_zero]
      push_cast
      ring
    · have htarget : Format.binary64.targetExponent (totalExponent (2 ^ 53) t) = t + 1 := by
        rw [targetExponent_eq, totalExponent, show Nat.log2 (2 ^ 53) = 53 by decide]
        omega
      have hshift : (t + 1 - t).toNat = 1 := by omega
      rw [unpacked_ofSign, shiftToTargetExponent, htarget, shiftToExponent, hshift]
      rfl

/-- After the first shift the mantissa has at most fifty-three digits, and all of them unless
the exponent is the least one. -/
theorem mantissa_bounds {m : ℕ} {e : ℤ} {accuracy : Accuracy} {x : ℝ}
    (h : Stands (.ofMantissaAndAccuracy m accuracy) x) {t : ℤ}
    (ht : t = Format.binary64.targetExponent (totalExponent m e)) (he : e ≤ t) :
    x * 2 ^ e < 2 ^ (t + 53) ∧ (t ≠ -1074 → (2 : ℝ) ^ (t + 52) ≤ x * 2 ^ e) := by
  have hpos : (0 : ℝ) < 2 ^ e := by positivity
  have hm : (ExtendedMantissa.ofMantissaAndAccuracy m accuracy).mantissa = m := by
    rcases accuracy with _ | _ | _ | _ <;> rfl
  have hle := h.le
  have hlt := h.lt
  rw [hm] at hle hlt
  rw [targetExponent_eq] at ht
  constructor
  · have hsucc : (m : ℝ) + 1 ≤ 2 ^ (m.log2 + 1) := by
      exact_mod_cast Nat.lt_log2_self
    calc x * 2 ^ e < 2 ^ (m.log2 + 1) * 2 ^ e := mul_lt_mul_of_pos_right (hlt.trans_le hsucc) hpos
      _ = 2 ^ totalExponent m e := by
        rw [totalExponent, ← zpow_natCast, ← zpow_add₀ two_ne_zero]
        push_cast
        rfl
      _ ≤ 2 ^ (t + 53) := zpow_le_zpow_right₀ one_le_two (by omega)
  · intro hne
    have htotal : t = totalExponent m e - 53 := by omega
    have hm0 : m ≠ 0 := by
      rintro rfl
      rw [totalExponent, show Nat.log2 0 = 0 by decide] at htotal
      omega
    calc (2 : ℝ) ^ (t + 52) = 2 ^ (totalExponent m e - 1) := by rw [htotal]; ring_nf
      _ ≤ m * 2 ^ e := (two_zpow_le_of_totalExponent hm0 e).1
      _ ≤ x * 2 ^ e := mul_le_mul_of_nonneg_right hle hpos.le

/-- A mantissa of full length, or one with the least exponent, is rounded to a nearest number
among all that are representable. -/
theorem Stands.nearest {em : ExtendedMantissa} {y : ℝ} {t : ℤ} (h : Stands em y)
    (hfull : t ≠ -1074 → (2 : ℝ) ^ 52 ≤ y) {v : ℝ} (hv : Representable v) :
    |em.roundedMantissa * 2 ^ t - y * 2 ^ t| ≤ |v - y * 2 ^ t| := by
  obtain ⟨z, k, hz, hk, rfl⟩ := hv
  have hunit : (0 : ℝ) < 2 ^ t := by positivity
  have hscale (w : ℝ) : |w * 2 ^ t - y * 2 ^ t| = |w - y| * 2 ^ t := by
    rw [← sub_mul, abs_mul, abs_of_pos hunit]
  rw [hscale]
  rcases le_or_gt t k with htk | hkt
  · obtain ⟨j, rfl⟩ : ∃ j : ℕ, k = t + j := ⟨(k - t).toNat, by omega⟩
    have hwhole : (z : ℝ) * 2 ^ (t + j) = ((z * 2 ^ j : ℤ) : ℝ) * 2 ^ t := by
      rw [zpow_add₀ two_ne_zero, zpow_natCast]
      push_cast
      ring
    rw [hwhole, hscale]
    exact mul_le_mul_of_nonneg_right (h.roundedMantissa_nearest _) hunit.le
  · -- a number with a smaller unit lies below the least mantissa of full length
    have hle := hfull (by omega)
    have hnear := h.roundedMantissa_nearest (2 ^ 52)
    rw [abs_sub_comm ((2 ^ 52 : ℤ) : ℝ), Int.cast_pow, Int.cast_ofNat,
      abs_of_nonneg (sub_nonneg.mpr hle)] at hnear
    have hz53 : (z : ℝ) < 2 ^ 53 := by exact_mod_cast (abs_lt.mp hz).2
    have hkpos : (0 : ℝ) < 2 ^ k := by positivity
    have hvle : (z : ℝ) * 2 ^ k ≤ 2 ^ 52 * 2 ^ t := by
      calc (z : ℝ) * 2 ^ k ≤ 2 ^ 53 * 2 ^ k := mul_le_mul_of_nonneg_right hz53.le hkpos.le
        _ = 2 ^ 52 * 2 ^ (k + 1) := by rw [zpow_add₀ two_ne_zero]; ring
        _ ≤ 2 ^ 52 * 2 ^ t :=
          mul_le_mul_of_nonneg_left (zpow_le_zpow_right₀ one_le_two (by omega)) (by positivity)
    calc |(em.roundedMantissa : ℝ) - y| * 2 ^ t ≤ (y - 2 ^ 52) * 2 ^ t :=
          mul_le_mul_of_nonneg_right hnear hunit.le
      _ ≤ y * 2 ^ t - z * 2 ^ k := by linarith
      _ ≤ |(z : ℝ) * 2 ^ k - y * 2 ^ t| := by
        rw [abs_sub_comm]
        exact le_abs_self _

/-- Whatever a mantissa with its bits stands for, rounding it gives parts that no
representable number is nearer to. -/
theorem exists_roundWithAccuracy {m : ℕ} {e : ℤ} {accuracy : Accuracy} {x : ℝ}
    (h : Stands (.ofMantissaAndAccuracy m accuracy) x)
    (he : e ≤ Format.binary64.targetExponent (totalExponent m e)) (s : Sign) :
    ∃ d : Parts, d.Canonical ∧ d.negative = (s == .negative) ∧
      roundWithAccuracy Format.binary64 s m e accuracy = d.unpacked ∧
      ∀ v, Representable v → |d.magnitude - x * 2 ^ e| ≤ |v - x * 2 ^ e| := by
  obtain ⟨t, ht⟩ : ∃ t, t = Format.binary64.targetExponent (totalExponent m e) := ⟨_, rfl⟩
  rw [← ht] at he
  obtain ⟨hhigh, hlow⟩ := mantissa_bounds h ht he
  have htmin : -1074 ≤ t := by
    rw [ht, targetExponent_eq]
    omega
  have hunit : (0 : ℝ) < 2 ^ t := by positivity
  obtain ⟨n, hn⟩ : ∃ n : ℕ, t = e + n := ⟨(t - e).toNat, by omega⟩
  -- the real result in units of the last place that stays
  obtain ⟨y, hy⟩ : ∃ y : ℝ, y = x / 2 ^ n := ⟨_, rfl⟩
  have hxy : x * 2 ^ e = y * 2 ^ t := by
    rw [hy, hn, zpow_add₀ two_ne_zero, zpow_natCast]
    field_simp
  obtain ⟨em, hem⟩ : ∃ em, em = ExtendedMantissa.ofMantissaAndAccuracy m accuracy >>> n := ⟨_, rfl⟩
  have hstands : Stands em y := by
    rw [hem, hy]
    exact h.shiftRight n
  have hbetween := hstands.le_roundedMantissa
  rw [hxy] at hhigh hlow ⊢
  have hr53 : em.roundedMantissa ≤ 2 ^ 53 := by
    have hy53 : y < 2 ^ 53 := by
      rw [add_comm, zpow_add₀ two_ne_zero] at hhigh
      exact_mod_cast lt_of_mul_lt_mul_right hhigh hunit.le
    have hm53 : em.mantissa < 2 ^ 53 := by exact_mod_cast hstands.le.trans_lt hy53
    omega
  have hy52 : t ≠ -1074 → (2 : ℝ) ^ 52 ≤ y := by
    intro hne
    have hle := hlow hne
    rw [add_comm, zpow_add₀ two_ne_zero] at hle
    exact_mod_cast le_of_mul_le_mul_right hle hunit
  have hr52 : t ≠ -1074 → 2 ^ 52 ≤ em.roundedMantissa := by
    intro hne
    have hm52 : 2 ^ 52 < em.mantissa + 1 := by
      exact_mod_cast (hy52 hne).trans_lt hstands.lt
    omega
  obtain ⟨d, hd, hs, hmag, hu⟩ := exists_carry s hr53 htmin hr52
  refine ⟨d, hd, hs, ?_, fun v hv => ?_⟩
  · rw [hu, roundWithAccuracy, shiftToTargetExponent, ← ht, shiftToExponent,
      show (t - e).toNat = n by omega]
    simp only [← hem, ← hn]
  · rw [hmag]
    exact hstands.nearest hy52 hv

/-! ## Roundings -/

def factor : Sign → ℝ
  | .negative => -1
  | .positive => 1

theorem abs_factor (s : Sign) : |factor s| = 1 := by cases s <;> simp [factor]

theorem factor_ne_zero (s : Sign) : factor s ≠ 0 :=
  abs_ne_zero.mp (by rw [abs_factor]; exact one_ne_zero)

theorem factor_mul_self (s : Sign) : factor s * factor s = 1 := by cases s <;> simp [factor]

theorem Parts.factor_eq {d : Parts} {s : Sign} (h : d.negative = (s == .negative)) :
    d.factor = Binary64.factor s := by
  rw [Parts.factor, h]
  cases s
  · exact if_pos rfl
  · exact if_neg (by decide)

theorem Parts.sign_eq {d : Parts} {s : Sign} (h : d.negative = (s == .negative)) :
    d.sign = s := by
  rw [Parts.sign, h]
  cases s <;> rfl

/-- A machine number is a rounding of a real number. It is finite if a number below the
overflow is at least as large, and then no representable number is nearer. Otherwise it is the
infinite number on the side of the real number. -/
structure IsRounding (y : ℝ) (x : Float) : Prop where
  isFinite : ∀ v, Representable v → v < 2 ^ (1024 : ℤ) → |y| ≤ v → x.isFinite = true
  nearest : x.isFinite = true → ∀ v, Representable v → |value x - y| ≤ |v - y|
  infinite : x.isFinite = false → ∃ s, x.toModel.unpack = .infinity s ∧ 0 < factor s * y

namespace IsRounding

variable {x : Float} {y v : ℝ}

theorem value_le (h : IsRounding y x) (hx : x.isFinite = true) (hv : Representable v)
    (hy : y ≤ v) : value x ≤ v := by
  by_contra hlt
  have hnear := h.nearest hx v hv
  rw [abs_of_nonneg (by linarith), abs_of_nonneg (by linarith)] at hnear
  linarith

theorem value_lt {t : ℝ} (h : IsRounding y x) (hx : x.isFinite = true)
    (hv : Representable v) (hvt : v < t) (hy : 2 * y < v + t) : value x < t := by
  by_contra hle
  rw [not_lt] at hle
  rcases le_or_gt y v with hyv | hvy
  · exact absurd (h.value_le hx hv hyv) (not_le.mpr (hvt.trans_le hle))
  · have hnear := h.nearest hx v hv
    rw [abs_of_nonneg (by linarith), abs_of_neg (by linarith)] at hnear
    linarith

theorem le_value (h : IsRounding y x) (hx : x.isFinite = true) (hv : Representable v)
    (hy : v ≤ y) : v ≤ value x := by
  by_contra hlt
  have hnear := h.nearest hx v hv
  rw [abs_of_nonpos (by linarith), abs_of_nonpos (by linarith)] at hnear
  linarith

theorem abs_value_le (h : IsRounding y x) (hx : x.isFinite = true) (hv : Representable v)
    (hy : |y| ≤ v) : |value x| ≤ v := by
  obtain ⟨hlow, hhigh⟩ := abs_le.mp hy
  exact abs_le.mpr ⟨h.le_value hx hv.neg hlow, h.value_le hx hv hhigh⟩

theorem le_abs_value (h : IsRounding y x) (hx : x.isFinite = true) (hv : Representable v)
    (hy : v ≤ |y|) : v ≤ |value x| := by
  rcases le_abs.mp hy with hy | hy
  · exact (h.le_value hx hv hy).trans (le_abs_self _)
  · have hneg := h.value_le hx hv.neg (by linarith)
    exact (by linarith : v ≤ -value x).trans (neg_le_abs _)

theorem value_eq (h : IsRounding y x) (hy : Representable y) (hlt : |y| < 2 ^ (1024 : ℤ)) :
    x.isFinite = true ∧ value x = y := by
  have hx := h.isFinite _ hy.abs hlt le_rfl
  exact ⟨hx, le_antisymm (h.value_le hx hy le_rfl) (h.le_value hx hy le_rfl)⟩

theorem value_eq_of_zero (h : IsRounding 0 x) : x.isFinite = true ∧ value x = 0 :=
  h.value_eq Representable.zero (by rw [abs_zero]; positivity)

theorem value_eq_zero (h : IsRounding y x) (hx : x.isFinite = true)
    (hy : |y| < 2 ^ (-1075 : ℤ)) : value x = 0 := by
  have hnear := h.nearest hx 0 Representable.zero
  rw [zero_sub, abs_neg] at hnear
  have hlt : |value x| < 2 ^ (-1074 : ℤ) := by
    have htri := abs_sub_abs_le_abs_sub (value x) y
    have hdouble : (2 : ℝ) ^ (-1074 : ℤ) = 2 ^ (-1075 : ℤ) + 2 ^ (-1075 : ℤ) := by
      rw [← two_mul, ← zpow_one_add₀ two_ne_zero]
      rfl
    linarith
  by_contra h0
  exact hlt.not_ge ((representable_value x).abs.two_zpow_le_of_pos (abs_pos.mpr h0))

theorem of_abs_le_two_zpow (h : IsRounding y x) {k : ℤ} (hk : -1074 ≤ k) (hk' : k ≤ 1023)
    (hy : |y| ≤ 2 ^ k) : x.isFinite = true ∧ |value x| ≤ 2 ^ k := by
  have hrep := Representable.two_zpow hk
  have hlt : (2 : ℝ) ^ k < 2 ^ (1024 : ℤ) := zpow_lt_zpow_right₀ one_lt_two (by omega)
  have hx := h.isFinite _ hrep hlt hy
  exact ⟨hx, h.abs_value_le hx hrep hy⟩

/-- What is small beside a power of two is absorbed by it: the rounding does not pass the power. -/
theorem of_abs_le_two_zpow_add (h : IsRounding y x) {k : ℤ} (hk : -1022 ≤ k) (hk' : k ≤ 1023)
    (hy : |y| ≤ 2 ^ k + 2 ^ (k - 54)) : x.isFinite = true ∧ |value x| ≤ 2 ^ k := by
  have hgap : (2 : ℝ) ^ (k - 52) = 4 * 2 ^ (k - 54) := by
    rw [show k - 52 = 2 + (k - 54) by ring, zpow_add₀ two_ne_zero]
    norm_num
  have hunit : (0 : ℝ) < 2 ^ (k - 54) := by positivity
  have hnext : Representable (2 ^ k + 2 ^ (k - 52)) := by
    refine ⟨2 ^ 52 + 1, k - 52, by norm_num, by omega, ?_⟩
    rw [show (2 : ℝ) ^ k = 2 ^ (52 : ℤ) * 2 ^ (k - 52) by
      rw [← zpow_add₀ two_ne_zero, add_sub_cancel]]
    push_cast
    ring
  have hlt : (2 : ℝ) ^ k + 2 ^ (k - 52) < 2 ^ (1024 : ℤ) := by
    have hless : (2 : ℝ) ^ (k - 52) < 2 ^ k := zpow_lt_zpow_right₀ one_lt_two (by omega)
    calc (2 : ℝ) ^ k + 2 ^ (k - 52) < 2 ^ k + 2 ^ k := by linarith
      _ = 2 ^ (k + 1) := by rw [zpow_add_one₀ two_ne_zero, mul_two]
      _ ≤ 2 ^ (1024 : ℤ) := zpow_le_zpow_right₀ one_le_two (by omega)
  have hx := h.isFinite _ hnext hlt (hy.trans (by linarith))
  refine ⟨hx, ?_⟩
  by_contra habove
  have hstep := (representable_value x).abs.add_le_of_lt (not_le.mp habove)
  have hrep := Representable.two_zpow (by omega : -1074 ≤ k)
  have hout : 2 ^ k < |y| := by
    by_contra hle
    exact habove (h.abs_value_le hx hrep (not_lt.mp hle))
  have hfar := abs_sub_abs_le_abs_sub (value x) y
  rcases abs_cases y with ⟨hyabs, -⟩ | ⟨hyabs, -⟩
  · have hnear := h.nearest hx _ hrep
    rw [abs_of_neg (by linarith : (2 : ℝ) ^ k - y < 0)] at hnear
    linarith
  · have hnear := h.nearest hx _ hrep.neg
    rw [abs_of_pos (by linarith : 0 < -(2 : ℝ) ^ k - y)] at hnear
    linarith

end IsRounding

/-- Parts with a greater exponent than machine numbers have exceed them all. -/
theorem Parts.Canonical.two_zpow_le_magnitude {d : Parts} (h : d.Canonical)
    (he : ¬d.exponent ≤ 971) : (2 : ℝ) ^ (1024 : ℤ) ≤ d.magnitude := by
  have hsig : (2 : ℝ) ^ (52 : ℤ) ≤ d.significand := by
    exact_mod_cast h.le_significand (by omega)
  calc (2 : ℝ) ^ (1024 : ℤ) = 2 ^ (52 : ℤ) * 2 ^ (972 : ℤ) := by
        rw [← zpow_add₀ two_ne_zero]
        rfl
    _ ≤ d.significand * 2 ^ d.exponent :=
      mul_le_mul hsig (zpow_le_zpow_right₀ one_le_two (by omega)) (by positivity)
        (by positivity)

theorem isRounding_packed {d : Parts} (hd : d.Canonical) {s : Sign}
    (hs : d.negative = (s == .negative)) {y : ℝ} (hy : 0 ≤ y)
    (hnear : ∀ v, Representable v → |d.magnitude - y| ≤ |v - y|) :
    IsRounding (factor s * y) d.packed := by
  have habs (w : ℝ) : |factor s * w| = |w| := by rw [abs_mul, abs_factor, one_mul]
  constructor
  · intro v hv hlt hle
    rw [isFinite_packed_iff hd]
    by_contra he
    rw [habs, abs_of_nonneg hy] at hle
    have hn := hnear v hv
    rw [abs_of_nonneg (sub_nonneg.mpr hle)] at hn
    linarith [hd.two_zpow_le_magnitude he, le_abs_self (d.magnitude - y)]
  · intro hfin v hv
    have hval := value_of_parts (parts_packed hd ((isFinite_packed_iff hd).mp hfin))
    rw [hval, Parts.value, Parts.factor_eq hs]
    have hrep : Representable (factor s * v) := by
      cases s
      · simpa [factor] using hv.neg
      · simpa [factor] using hv
    calc |factor s * d.magnitude - factor s * y| = |d.magnitude - y| := by rw [← mul_sub, habs]
      _ ≤ |factor s * v - y| := hnear _ hrep
      _ = |factor s * (factor s * v - y)| := (habs _).symm
      _ = |v - factor s * y| := by
        rw [mul_sub, ← mul_assoc, factor_mul_self, one_mul]
  · intro hfin
    have he : ¬d.exponent ≤ 971 := by
      rw [← isFinite_packed_iff hd, hfin]
      exact Bool.false_ne_true
    refine ⟨s, ?_, ?_⟩
    · rw [unpack_packed_of_lt hd (not_le.mp he), Parts.sign_eq hs]
    · rw [← mul_assoc, factor_mul_self, one_mul]
      refine hy.lt_of_ne fun h0 => ?_
      have hn := hnear 0 Representable.zero
      rw [← h0, sub_zero, sub_zero, abs_zero] at hn
      exact absurd ((hd.two_zpow_le_magnitude he).trans ((le_abs_self _).trans hn))
        (not_le.mpr (by positivity))

end Arbor.Binary64
