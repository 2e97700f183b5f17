import Arbor.Proofs.Binary64.Rounding

/-! # Arithmetic on finite numbers

Sums, products, quotients and square roots of finite machine numbers are roundings of the real
ones. Each operation first finds a mantissa and what it stands for, and rounds once.
-/

namespace Arbor.Binary64

open Float.Model UnpackedFloat

theorem unpack_cases {x : Float} (h : x.isFinite = true) :
    (∃ s, x.toModel.unpack = .zero s ∧ value x = 0) ∨
      ∃ s m e, ∃ hm : 0 < m, x.toModel.unpack = .finite s m e hm ∧
        value x = factor s * (m * 2 ^ e) ∧ (Parts.ofSign s m e).Canonical := by
  obtain ⟨d, hd⟩ := isFinite_iff.mp h
  have hu := unpack_eq_of_parts hd
  have hv := value_of_parts hd
  have hs : d.negative = (d.sign == .negative) := (sign_eq_negative d).symm
  rw [Parts.value, Parts.factor_eq hs, Parts.magnitude] at hv
  rw [Parts.unpacked] at hu
  split at hu
  · next h0 =>
    left
    exact ⟨d.sign, hu, by rw [hv, h0, Nat.cast_zero, zero_mul, mul_zero]⟩
  · refine Or.inr ⟨d.sign, d.significand, d.exponent, _, hu, hv, ?_⟩
    rw [Parts.ofSign, sign_eq_negative]
    exact (canonical_of_parts hd).1

/-- What an unpacked number says about the real number that it stands for. -/
inductive Unpacks : UnpackedFloat → ℝ → Prop
  | zero (s : Sign) : Unpacks (.zero s) 0
  | finite {s : Sign} {m : ℕ} {e : ℤ} (hm : 0 < m) (hc : (Parts.ofSign s m e).Canonical) :
    Unpacks (.finite s m e hm) (factor s * (m * 2 ^ e))

theorem unpacks_value {x : Float} (h : x.isFinite = true) :
    Unpacks x.toModel.unpack (value x) := by
  rcases unpack_cases h with ⟨s, hu, hv⟩ | ⟨s, m, e, hm, hu, hv, hc⟩ <;> rw [hu, hv]
  · exact .zero s
  · exact .finite hm hc

/-! ## Packed results -/

theorem isRounding_self {s : Sign} {m : ℕ} {e : ℤ} (h : (Parts.ofSign s m e).Canonical) :
    IsRounding (factor s * (m * 2 ^ e)) (Parts.ofSign s m e).packed := by
  refine isRounding_packed h rfl (by positivity) fun v _ => ?_
  rw [Parts.magnitude, Parts.ofSign, sub_self, abs_zero]
  exact abs_nonneg _

theorem isRounding_finite {s : Sign} {m : ℕ} {e : ℤ} (hm : 0 < m)
    (h : (Parts.ofSign s m e).Canonical) :
    IsRounding (factor s * (m * 2 ^ e)) (.ofModel (pack (.finite s m e hm))) := by
  have hpack := isRounding_self h
  rwa [Parts.packed, unpacked_ofSign, dif_neg hm.ne'] at hpack

theorem isRounding_zero (s : Sign) : IsRounding 0 (.ofModel (pack (.zero s))) := by
  have hc : (Parts.ofSign s 0 (-1074)).Canonical :=
    ⟨Nat.two_pow_pos 53, le_rfl, fun h => absurd rfl h⟩
  have hpack := isRounding_self hc
  rwa [Parts.packed, unpacked_ofSign, dif_pos rfl, Nat.cast_zero, zero_mul, mul_zero] at hpack

theorem isRounding_roundWithAccuracy {m : ℕ} {e : ℤ} {accuracy : Accuracy} {x : ℝ}
    (h : Stands (.ofMantissaAndAccuracy m accuracy) x)
    (he : e ≤ Format.binary64.targetExponent (totalExponent m e)) (s : Sign) :
    IsRounding (factor s * (x * 2 ^ e))
      (.ofModel (pack (roundWithAccuracy Format.binary64 s m e accuracy))) := by
  obtain ⟨d, hd, hs, hu, hnear⟩ := exists_roundWithAccuracy h he s
  have hx : 0 ≤ x := le_trans (Nat.cast_nonneg _) h.le
  rw [hu]
  exact isRounding_packed hd hs (by positivity) hnear

theorem le_targetExponent {m : ℕ} {e : ℤ} (h : -1074 < e → 2 ^ 52 ≤ m) :
    e ≤ Format.binary64.targetExponent (totalExponent m e) := by
  rw [targetExponent_eq, totalExponent]
  by_cases he : -1074 < e
  · have hlog : 52 ≤ m.log2 := (Nat.le_log2 (by have := h he; omega)).mpr (h he)
    omega
  · omega

theorem log2_shiftLeft {m : ℕ} (hm : m ≠ 0) (n : ℕ) : (m <<< n).log2 = m.log2 + n := by
  have hpos : 0 < 2 ^ n := Nat.two_pow_pos n
  rw [Nat.shiftLeft_eq, Nat.log2_eq_iff (Nat.mul_ne_zero hm hpos.ne'), Nat.add_right_comm,
    pow_add, pow_add _ (m.log2 + 1)]
  exact ⟨Nat.mul_le_mul_right _ (Nat.log2_self_le hm), Nat.mul_lt_mul_of_pos_right
    Nat.lt_log2_self hpos⟩

theorem totalExponent_shiftLeft {m : ℕ} (hm : m ≠ 0) (e : ℤ) (n : ℕ) :
    totalExponent (m <<< n) (e - n) = totalExponent m e := by
  rw [totalExponent, totalExponent, log2_shiftLeft hm]
  push_cast
  ring

theorem isRounding_round (s : Sign) {m : ℕ} (hm : m ≠ 0) (e : ℤ) :
    IsRounding (factor s * (m * 2 ^ e))
      (.ofModel (pack (UnpackedFloat.round Format.binary64 s m e))) := by
  obtain ⟨n, hn⟩ : ∃ n, n = (e - Format.binary64.targetExponent (totalExponent m e)).toNat :=
    ⟨_, rfl⟩
  have hval : (m : ℝ) * 2 ^ e = (m <<< n : ℕ) * 2 ^ (e - n) := by
    rw [Nat.shiftLeft_eq, zpow_sub₀ two_ne_zero, zpow_natCast]
    push_cast
    field_simp
  have he : e - n ≤ Format.binary64.targetExponent (totalExponent (m <<< n) (e - n)) := by
    rw [totalExponent_shiftLeft hm]
    omega
  rw [UnpackedFloat.round, decreaseExponent, ← hn, hval]
  exact isRounding_roundWithAccuracy (Stands.exact _) he s

theorem isRounding_normalize (m e : ℤ) (s : Sign) :
    IsRounding (m * 2 ^ e) (.ofModel (pack (UnpackedFloat.normalize Format.binary64 m e s))) := by
  rcases lt_trichotomy m 0 with hm | rfl | hm
  · have hcast : (m : ℝ) = -((-m).toNat : ℝ) := by
      have : m = -((-m).toNat : ℤ) := by omega
      exact_mod_cast this
    rw [UnpackedFloat.normalize, Int.compare_eq_lt.mpr hm, hcast]
    simpa only [factor, neg_mul, one_mul] using
      isRounding_round .negative (by omega : (-m).toNat ≠ 0) e
  · rw [Int.cast_zero, zero_mul]
    exact isRounding_zero s
  · have hcast : (m : ℝ) = (m.toNat : ℝ) := by
      have : m = (m.toNat : ℤ) := by omega
      exact_mod_cast this
    rw [UnpackedFloat.normalize, Int.compare_eq_gt.mpr hm, hcast]
    simpa only [factor, one_mul] using isRounding_round .positive (by omega : m.toNat ≠ 0) e

/-! ## Operations -/

variable {a b : Float}

theorem factor_mul (s t : Sign) : factor (s * t) = factor s * factor t := by
  cases s <;> cases t <;> simp only [factor, mul_neg, neg_neg, mul_one]

theorem factor_div (s t : Sign) : factor (s / t) = factor s * factor t := factor_mul s t

theorem isRounding_mul (ha : a.isFinite = true) (hb : b.isFinite = true) :
    IsRounding (value a * value b) (a * b) := by
  change IsRounding _ (.ofModel (pack (UnpackedFloat.mul Format.binary64 a.toModel.unpack
    b.toModel.unpack)))
  rcases unpack_cases ha with ⟨s, hua, hva⟩ | ⟨s, m, e, hm, hua, hva, hca⟩
  · rw [hva, zero_mul, hua]
    rcases unpack_cases hb with ⟨t, hub, -⟩ | ⟨t, n, f, hn, hub, -, -⟩ <;> rw [hub] <;>
      exact isRounding_zero _
  · rcases unpack_cases hb with ⟨t, hub, hvb⟩ | ⟨t, n, f, hn, hub, hvb, hcb⟩
    · rw [hvb, mul_zero, hua, hub]
      exact isRounding_zero _
    · have hprod : value a * value b = factor (s * t) * ((m * n : ℕ) * 2 ^ (e + f)) := by
        rw [hva, hvb, factor_mul, zpow_add₀ two_ne_zero]
        push_cast
        ring
      have hexp : e + f ≤ Format.binary64.targetExponent (totalExponent (m * n) (e + f)) := by
        refine le_targetExponent fun hmin => ?_
        -- one of the factors has full length
        have hfull : e ≠ -1074 ∨ f ≠ -1074 := by omega
        rcases hfull with he | hf
        · exact (hca.le_significand he).trans (Nat.le_mul_of_pos_right m hn)
        · exact (hcb.le_significand hf).trans (Nat.le_mul_of_pos_left n hm)
      rw [hprod, hua, hub]
      exact isRounding_roundWithAccuracy (Stands.exact _) hexp _

theorem apply_decreaseExponent (s : Sign) (m : ℕ) {e t : ℤ} (h : t ≤ e) :
    ((s.apply ((decreaseExponent m e t).1 : ℤ) : ℤ) : ℝ) * 2 ^ t = factor s * (m * 2 ^ e) := by
  obtain ⟨n, rfl⟩ : ∃ n : ℕ, e = t + n := ⟨(e - t).toNat, by omega⟩
  have hn : (t + n - t : ℤ).toNat = n := by omega
  have hval : ((m <<< n : ℕ) : ℝ) * 2 ^ t = m * 2 ^ (t + n) := by
    rw [Nat.shiftLeft_eq, zpow_add₀ two_ne_zero, zpow_natCast]
    push_cast
    ring
  rw [decreaseExponent, hn, ← hval]
  cases s
  · simp only [Sign.apply, factor, Int.cast_neg, Int.cast_natCast, neg_mul, one_mul]
  · simp only [Sign.apply, factor, Int.cast_natCast, one_mul]

theorem Parts.Canonical.ofSign {s : Sign} {m : ℕ} {e : ℤ} (h : (Parts.ofSign s m e).Canonical)
    (t : Sign) : (Parts.ofSign t m e).Canonical :=
  ⟨h.significand_lt, h.le_exponent, h.le_significand⟩

theorem factor_neg (s : Sign) : factor (-s) = -factor s := by
  cases s
  · exact (neg_neg 1).symm
  · rfl

theorem apply_neg (s : Sign) (n : ℤ) : (-s).apply n = -s.apply n := by
  cases s
  · exact (neg_neg n).symm
  · rfl

theorem sub_eq_add_neg_unpacked (u v : UnpackedFloat) :
    UnpackedFloat.sub Format.binary64 u v = UnpackedFloat.add Format.binary64 u v.neg := by
  cases u <;> cases v <;> try rfl
  case finite.finite s m e hm t n f hn =>
    simp only [UnpackedFloat.sub, UnpackedFloat.neg, UnpackedFloat.add, apply_neg, sub_eq_add_neg]

namespace Unpacks

variable {u v : UnpackedFloat} {x y : ℝ}

theorem isRounding (hu : Unpacks u x) : IsRounding x (.ofModel (pack u)) := by
  cases hu with
  | zero s => exact isRounding_zero s
  | finite hm hc => exact isRounding_finite hm hc

theorem neg (hu : Unpacks u x) : Unpacks u.neg (-x) := by
  cases hu with
  | zero s =>
    rw [neg_zero]
    exact .zero (-s)
  | @finite s m e hm hc =>
    rw [← neg_mul, ← factor_neg]
    exact .finite hm (hc.ofSign (-s))

theorem isRounding_add (hu : Unpacks u x) (hv : Unpacks v y) :
    IsRounding (x + y) (.ofModel (pack (UnpackedFloat.add Format.binary64 u v))) := by
  cases hu with
  | zero s =>
    cases hv with
    | zero t =>
      rw [add_zero, UnpackedFloat.add]
      split <;> exact isRounding_zero _
    | finite hn hd =>
      rw [zero_add]
      exact isRounding_finite hn hd
  | @finite s m e hm hc =>
    cases hv with
    | zero t =>
      rw [add_zero]
      exact isRounding_finite hm hc
    | @finite t n f hn hd =>
      rw [← apply_decreaseExponent s m (min_le_left e f),
        ← apply_decreaseExponent t n (min_le_right e f), ← add_mul, ← Int.cast_add]
      exact isRounding_normalize _ _ _

end Unpacks

theorem isRounding_add (ha : a.isFinite = true) (hb : b.isFinite = true) :
    IsRounding (value a + value b) (a + b) :=
  (unpacks_value ha).isRounding_add (unpacks_value hb)

theorem neg_of_isFinite (ha : a.isFinite = true) :
    (-a).isFinite = true ∧ value (-a) = -value a :=
  IsRounding.value_eq (unpacks_value ha).neg.isRounding (representable_value a).neg
    (by rw [abs_neg]; exact abs_value_lt a)

theorem isRounding_sub (ha : a.isFinite = true) (hb : b.isFinite = true) :
    IsRounding (value a - value b) (a - b) := by
  change IsRounding _ (.ofModel (pack (UnpackedFloat.sub Format.binary64 a.toModel.unpack
    b.toModel.unpack)))
  rw [sub_eq_add_neg_unpacked, sub_eq_add_neg]
  exact (unpacks_value ha).isRounding_add (unpacks_value hb).neg

theorem parts_one : parts? (Float.ofBits 0x3FF0000000000000) = some ⟨false, 2 ^ 52, -52⟩ := by
  decide

theorem isFinite_one : (Float.ofBits 0x3FF0000000000000).isFinite = true :=
  isFinite_iff.mpr ⟨_, parts_one⟩

theorem value_one : value (Float.ofBits 0x3FF0000000000000) = 1 := by
  rw [value_of_parts parts_one]
  norm_num [Parts.value, Parts.factor, Parts.magnitude]

theorem ofNat_of_lt {n : ℕ} (h : n < 2 ^ 53) :
    (Float.ofNat n).isFinite = true ∧ value (Float.ofNat n) = n := by
  have hrep : Representable n :=
    ⟨n, 0, by rw [Nat.abs_cast]; exact_mod_cast h, by norm_num, by simp⟩
  have hlt : |(n : ℝ)| < 2 ^ (1024 : ℤ) := by
    rw [Nat.abs_cast]
    calc (n : ℝ) < 2 ^ (53 : ℤ) := by exact_mod_cast h
      _ ≤ 2 ^ (1024 : ℤ) := zpow_le_zpow_right₀ one_le_two (by norm_num)
  have hword : IsRounding n n.toUInt64.toFloat := by
    have hmod : n.toUInt64.toNat = n := by
      rw [Nat.toUInt64, UInt64.toNat_ofNat']
      omega
    have hround : IsRounding ((n.toUInt64.toNat : ℤ) * 2 ^ (0 : ℤ)) n.toUInt64.toFloat :=
      isRounding_normalize _ _ _
    rwa [hmod, zpow_zero, mul_one, Int.cast_natCast] at hround
  obtain ⟨hfin, hval⟩ := hword.value_eq hrep hlt
  -- a decimal without a fraction is multiplied by one
  have hmul : Float.ofNat n = n.toUInt64.toFloat * Float.ofBits 0x3FF0000000000000 :=
    dif_pos ⟨h, Nat.zero_le 22⟩
  have hprod := isRounding_mul hfin isFinite_one
  rw [hval, value_one, mul_one] at hprod
  rw [hmul]
  exact hprod.value_eq hrep hlt

theorem isFinite_zero : (0 : Float).isFinite = true := (ofNat_of_lt (Nat.two_pow_pos 53)).1

theorem value_zero : value 0 = 0 := by
  rw [← Nat.cast_zero]
  exact (ofNat_of_lt (Nat.two_pow_pos 53)).2

theorem add_zero_of_isFinite (ha : a.isFinite = true) :
    (a + 0).isFinite = true ∧ value (a + 0) = value a := by
  have hsum := isRounding_add ha isFinite_zero
  rw [value_zero, add_zero] at hsum
  exact hsum.value_eq (representable_value a) (abs_value_lt a)

/-! ## Quotients and square roots -/

/-- A quotient of whole numbers is told apart from the whole part by the rest. -/
theorem accuracyOfFraction_eq (m : ℕ) {n : ℕ} (hn : 0 < n) :
    accuracyOfFraction (m % n) n = accuracyOf (m / n) ((m : ℝ) / n) := by
  have hpos : (0 : ℝ) < n := by exact_mod_cast hn
  have hquot : (m : ℝ) / n = (m / n : ℕ) + (m % n : ℕ) / n := by
    have hsplit : (m : ℝ) = n * (m / n : ℕ) + (m % n : ℕ) := by
      exact_mod_cast (Nat.div_add_mod m n).symm
    calc (m : ℝ) / n = (n * (m / n : ℕ) + (m % n : ℕ)) / n := by rw [← hsplit]
      _ = (m / n : ℕ) + (m % n : ℕ) / n := by rw [add_div, mul_div_cancel_left₀ _ hpos.ne']
  rw [accuracyOfFraction, accuracyOf, hquot]
  rcases Nat.eq_zero_or_pos (m % n) with h0 | h0
  · rw [if_pos h0, if_pos (by rw [h0, Nat.cast_zero, zero_div, add_zero])]
  · have hrest : (0 : ℝ) < (m % n : ℕ) / n := div_pos (by exact_mod_cast h0) hpos
    rw [if_neg h0.ne', if_neg (by linarith)]
    congr 1
    rcases lt_trichotomy (2 * (m % n)) n with h | h | h
    · have hr : 2 * ((m % n : ℕ) / n : ℝ) < 1 := by
        rw [← mul_div_assoc, div_lt_one hpos]
        exact_mod_cast h
      rw [Nat.compare_eq_lt.mpr h, compare_lt_iff_lt.mpr (by linarith)]
    · have hr : 2 * ((m % n : ℕ) / n : ℝ) = 1 := by
        rw [← mul_div_assoc, div_eq_one_iff_eq hpos.ne']
        exact_mod_cast h
      rw [Nat.compare_eq_eq.mpr h, compare_eq_iff_eq.mpr (by linarith)]
    · have hr : 1 < 2 * ((m % n : ℕ) / n : ℝ) := by
        rw [← mul_div_assoc, one_lt_div hpos]
        exact_mod_cast h
      rw [Nat.compare_eq_gt.mpr h, compare_gt_iff_gt.mpr (by linarith)]

theorem stands_div (m : ℕ) {n : ℕ} (hn : 0 < n) :
    Stands (.ofMantissaAndAccuracy (m / n) (accuracyOfFraction (m % n) n)) ((m : ℝ) / n) := by
  rw [accuracyOfFraction_eq m hn]
  refine Stands.ofAccuracy Nat.cast_div_le ?_
  rw [div_lt_iff₀ (by exact_mod_cast hn), mul_comm]
  exact_mod_cast Nat.lt_mul_div_succ m hn

theorem isRounding_div (ha : a.isFinite = true) (hb : b.isFinite = true) (h : value b ≠ 0) :
    IsRounding (value a / value b) (a / b) := by
  change IsRounding _ (.ofModel (pack (UnpackedFloat.div Format.binary64 a.toModel.unpack
    b.toModel.unpack)))
  rcases unpack_cases hb with ⟨t, -, hvb⟩ | ⟨t, n, f, hn, hub, hvb, hcb⟩
  · exact absurd hvb h
  rcases unpack_cases ha with ⟨s, hua, hva⟩ | ⟨s, m, e, hm, hua, hva, hca⟩
  · rw [hva, zero_div, hua, hub]
    exact isRounding_zero _
  · obtain ⟨u, hu⟩ : ∃ u, u = min (e - f)
        (Format.binary64.targetExponent (totalExponent m e - totalExponent n f)) := ⟨_, rfl⟩
    obtain ⟨k, hk⟩ : ∃ k : ℕ, e - f = u + k := ⟨(e - f - u).toNat, by omega⟩
    have hquot : value a / value b = factor (s / t) * (((m <<< k : ℕ) : ℝ) / n * 2 ^ u) := by
      have hpos : (n : ℝ) ≠ 0 := by exact_mod_cast hn.ne'
      have hpow : (2 : ℝ) ^ e = 2 ^ u * 2 ^ k * 2 ^ f := by
        rw [← zpow_natCast, ← zpow_add₀ two_ne_zero, ← zpow_add₀ two_ne_zero, ← hk, sub_add_cancel]
      have hsign : factor s / factor t = factor (s / t) := by
        rw [factor_div, div_eq_iff (factor_ne_zero t), mul_assoc, factor_mul_self, mul_one]
      rw [hva, hvb, hpow, Nat.shiftLeft_eq, ← hsign]
      push_cast
      field_simp
    have hexp : u ≤ Format.binary64.targetExponent (totalExponent (m <<< k / n) u) := by
      refine le_targetExponent fun hmin => ?_
      rw [targetExponent_eq, totalExponent, totalExponent] at hu
      rw [Nat.le_div_iff_mul_le hn, Nat.shiftLeft_eq]
      calc 2 ^ 52 * n ≤ 2 ^ 52 * 2 ^ (n.log2 + 1) := Nat.mul_le_mul_left _ Nat.lt_log2_self.le
        _ = 2 ^ (52 + (n.log2 + 1)) := (pow_add 2 _ _).symm
        _ ≤ 2 ^ (m.log2 + k) := Nat.pow_le_pow_right two_pos (by omega)
        _ = 2 ^ m.log2 * 2 ^ k := pow_add 2 _ _
        _ ≤ m * 2 ^ k := Nat.mul_le_mul_right _ (Nat.log2_self_le hm.ne')
    rw [hquot, hua, hub, UnpackedFloat.div, divCore, ← hu, show (e - f - u).toNat = k by omega]
    exact isRounding_roundWithAccuracy (stands_div _ hn) hexp _

/-- A square root is told apart from the whole part by the rest: it is never in the middle. -/
theorem accuracyOf_sqrt (m : ℕ) :
    accuracyOf m.sqrt √m = if m - m.sqrt * m.sqrt = 0 then .exact
      else .inexact (if m - m.sqrt * m.sqrt ≤ m.sqrt then .lt else .gt) := by
  have hle := Nat.sqrt_le m
  have hm : (0 : ℝ) ≤ m := Nat.cast_nonneg m
  rw [accuracyOf]
  by_cases h0 : m - m.sqrt * m.sqrt = 0
  · rw [if_pos h0, if_pos]
    rw [Real.sqrt_eq_iff_mul_self_eq hm (Nat.cast_nonneg _)]
    exact_mod_cast (by omega : m = m.sqrt * m.sqrt)
  · rw [if_neg h0, if_neg]
    · congr 1
      have hdouble : 2 * √(m : ℝ) = √((4 * m : ℕ) : ℝ) := by
        rw [Nat.cast_mul, Real.sqrt_mul (by norm_num), show ((4 : ℕ) : ℝ) = 2 ^ 2 by norm_num,
          Real.sqrt_sq (by norm_num)]
      have hsquare : (2 * m.sqrt + 1) ^ 2 = 4 * (m.sqrt * m.sqrt) + 4 * m.sqrt + 1 := by ring
      by_cases h : m - m.sqrt * m.sqrt ≤ m.sqrt
      · have hlt : 2 * √(m : ℝ) < 2 * m.sqrt + 1 := by
          rw [hdouble, Real.sqrt_lt' (by positivity)]
          exact_mod_cast (by omega : 4 * m < (2 * m.sqrt + 1) ^ 2)
        rw [if_pos h, compare_lt_iff_lt.mpr (by linarith)]
      · have hgt : 2 * (m.sqrt : ℝ) + 1 < 2 * √(m : ℝ) := by
          rw [hdouble]
          refine Real.lt_sqrt_of_sq_lt ?_
          exact_mod_cast (by omega : (2 * m.sqrt + 1) ^ 2 < 4 * m)
        rw [if_neg h, compare_gt_iff_gt.mpr (by linarith)]
    · rw [Real.sqrt_eq_iff_mul_self_eq hm (Nat.cast_nonneg _)]
      exact_mod_cast (by omega : ¬m = m.sqrt * m.sqrt)

theorem stands_sqrt (m : ℕ) :
    Stands (.ofMantissaAndAccuracy m.sqrt (if m - m.sqrt * m.sqrt = 0 then .exact
      else .inexact (if m - m.sqrt * m.sqrt ≤ m.sqrt then .lt else .gt))) √m := by
  rw [← accuracyOf_sqrt]
  refine Stands.ofAccuracy ?_ ?_
  · exact Real.le_sqrt_of_sq_le (by exact_mod_cast Nat.sqrt_le' m)
  · rw [Real.sqrt_lt' (by positivity)]
    exact_mod_cast Nat.lt_succ_sqrt' m

theorem isRounding_sqrt (ha : a.isFinite = true) (h : 0 ≤ value a) :
    IsRounding √(value a) a.sqrt := by
  change IsRounding _ (.ofModel (pack (UnpackedFloat.sqrt Format.binary64 a.toModel.unpack)))
  rcases unpack_cases ha with ⟨s, hua, hva⟩ | ⟨s, m, e, hm, hua, hva, hca⟩
  · rw [hva, Real.sqrt_zero, hua]
    exact isRounding_zero _
  · obtain rfl : s = .positive := by
      cases s
      · rw [hva, factor, neg_one_mul, Left.nonneg_neg_iff] at h
        exact absurd h (not_le.mpr (by positivity))
      · rfl
    obtain ⟨u, hu⟩ : ∃ u, u = min (e / 2)
        (Format.binary64.targetExponent ((totalExponent m e + 1) / 2)) := ⟨_, rfl⟩
    obtain ⟨k, hk⟩ : ∃ k : ℕ, e = 2 * u + k := ⟨(e - 2 * u).toNat, by omega⟩
    have hroot : √(value a) = factor .positive * (√((m <<< k : ℕ) : ℝ) * 2 ^ u) := by
      have hpow : (2 : ℝ) ^ e = 2 ^ k * (2 ^ u) ^ 2 := by
        rw [← zpow_natCast, ← zpow_natCast, ← zpow_mul, ← zpow_add₀ two_ne_zero, hk]
        congr 1
        push_cast
        ring
      rw [hva, factor, one_mul, one_mul, hpow, Nat.shiftLeft_eq, ← mul_assoc,
        Real.sqrt_mul (by positivity), Real.sqrt_sq (by positivity)]
      push_cast
      rfl
    have hexp : u ≤ Format.binary64.targetExponent (totalExponent (m <<< k).sqrt u) := by
      refine le_targetExponent fun hmin => ?_
      rw [targetExponent_eq, totalExponent] at hu
      rw [Nat.le_sqrt, Nat.shiftLeft_eq]
      calc 2 ^ 52 * 2 ^ 52 = 2 ^ 104 := by norm_num
        _ ≤ 2 ^ (m.log2 + k) := Nat.pow_le_pow_right two_pos (by omega)
        _ = 2 ^ m.log2 * 2 ^ k := pow_add 2 _ _
        _ ≤ m * 2 ^ k := Nat.mul_le_mul_right _ (Nat.log2_self_le hm.ne')
    have hshift : (e - 2 * u).toNat = k := by omega
    have hround := isRounding_roundWithAccuracy (stands_sqrt (m <<< k)) hexp .positive
    rw [← hroot, ← hshift, hu] at hround
    rw [hua]
    exact hround

end Arbor.Binary64
