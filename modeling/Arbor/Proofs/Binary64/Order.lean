import Arbor.Proofs.Binary64.Compare

/-! # Numbers that are at least zero

Squares, sums of squares and their roots are never below zero and never not-a-number. They may
be infinite, and what is divided by them then is zero.
-/

namespace Arbor.Binary64

open Float.Model UnpackedFloat

variable {a b : Float}

theorem isFinite_eq_false_of_unpack {s : Sign} (h : a.toModel.unpack = .infinity s) :
    a.isFinite = false := by
  change a.toModel.unpack.isFinite = false
  rw [h]
  rfl

/-! ## Comparison with zero -/

theorem lt_zero_iff_of_isFinite (ha : a.isFinite = true) :
    Scalar.lt 0 a = true ↔ 0 < value a := by
  rw [lt_iff isFinite_zero ha, value_zero]

theorem lt_eq_false_of_nonneg (ha : a.isFinite = true) (h : 0 ≤ value a) :
    Scalar.lt a 0 = false := by
  rw [← Bool.not_eq_true, lt_iff ha isFinite_zero, value_zero]
  exact h.not_gt

theorem lt_zero_of_unpack (h : a.toModel.unpack = .infinity .positive) :
    Scalar.lt 0 a = true := by
  rw [lt_iff_compare, h]
  rfl

theorem le_of_unpack (ha : a.isFinite = true) (hb : b.toModel.unpack = .infinity .positive) :
    Scalar.le a b = true ∧ Scalar.le b a = false := by
  rw [← Bool.not_eq_true, le_iff_compare, le_iff_compare, hb]
  rcases unpack_cases ha with ⟨s, hu, -⟩ | ⟨s, m, e, hm, hu, -, -⟩ <;> rw [hu] <;>
    exact ⟨rfl, Bool.false_ne_true⟩

theorem beq_zero_iff_of_isFinite (ha : a.isFinite = true) : (a == 0) = true ↔ value a = 0 := by
  change a.toModel.unpack.beq (.zero .positive) = true ↔ _
  rcases unpack_cases ha with ⟨s, hu, hv⟩ | ⟨s, m, e, hm, hu, hv, -⟩
  · rw [hu, hv]
    simp only [iff_true]
    rfl
  · have hne : value a ≠ 0 := by
      have hpos : (0 : ℝ) < m * 2 ^ e := by positivity
      rw [hv]
      exact mul_ne_zero (factor_ne_zero s) hpos.ne'
    rw [hu]
    simp only [hne, iff_false]
    cases s <;> exact Bool.false_ne_true

/-! ## Numbers that are at least zero -/

/-- A number that is at least zero, or infinite on that side. -/
def AtLeastZero (a : Float) : Prop :=
  a.isFinite = true ∧ 0 ≤ value a ∨ a.toModel.unpack = .infinity .positive

theorem unpack_top :
    (Float.ofModel (pack (.infinity .positive))).toModel.unpack = .infinity .positive := rfl

theorem unpack_add_eq_top (h : UnpackedFloat.add Format.binary64 a.toModel.unpack
    b.toModel.unpack = .infinity .positive) : (a + b).toModel.unpack = .infinity .positive := by
  change (Float.ofModel (pack (UnpackedFloat.add Format.binary64 a.toModel.unpack
    b.toModel.unpack))).toModel.unpack = _
  rw [h]
  exact unpack_top

theorem unpack_add_of_isFinite (ha : a.toModel.unpack = .infinity .positive)
    (hb : b.isFinite = true) : (a + b).toModel.unpack = .infinity .positive := by
  refine unpack_add_eq_top ?_
  rw [ha]
  rcases unpack_cases hb with ⟨s, hu, -⟩ | ⟨s, m, e, hm, hu, -, -⟩ <;> rw [hu] <;> rfl

namespace AtLeastZero

theorem of_isRounding {y : ℝ} (hy : 0 ≤ y) (h : IsRounding y a) : AtLeastZero a := by
  by_cases hfin : a.isFinite = true
  · exact Or.inl ⟨hfin, h.le_value hfin Representable.zero hy⟩
  · obtain ⟨s, hs, hpos⟩ := h.infinite (Bool.not_eq_true _ ▸ hfin)
    cases s
    · rw [factor] at hpos
      linarith
    · exact Or.inr hs

theorem value_nonneg (h : AtLeastZero a) (ha : a.isFinite = true) : 0 ≤ value a := by
  rcases h with ⟨-, h⟩ | h
  · exact h
  · rw [isFinite_eq_false_of_unpack h] at ha
    cases ha

theorem unpack_of_not_isFinite (h : AtLeastZero a) (ha : a.isFinite = false) :
    a.toModel.unpack = .infinity .positive := by
  rcases h with ⟨h, -⟩ | h
  · rw [h] at ha
    cases ha
  · exact h

theorem unpack_add_of_not_isFinite (ha : AtLeastZero a) (hb : AtLeastZero b)
    (h : ¬(a.isFinite = true ∧ b.isFinite = true)) :
    (a + b).toModel.unpack = .infinity .positive := by
  rcases ha with ⟨hfa, -⟩ | hua
  · rcases hb with ⟨hfb, -⟩ | hub
    · exact absurd ⟨hfa, hfb⟩ h
    · refine unpack_add_eq_top ?_
      rw [hub]
      rcases unpack_cases hfa with ⟨s, hua, -⟩ | ⟨s, m, e, hm, hua, -, -⟩ <;> rw [hua] <;> rfl
  · rcases hb with ⟨hfb, -⟩ | hub
    · exact unpack_add_of_isFinite hua hfb
    · refine unpack_add_eq_top ?_
      rw [hua, hub]
      rfl

theorem add (ha : AtLeastZero a) (hb : AtLeastZero b) : AtLeastZero (a + b) := by
  by_cases h : a.isFinite = true ∧ b.isFinite = true
  · exact of_isRounding (add_nonneg (ha.value_nonneg h.1) (hb.value_nonneg h.2))
      (isRounding_add h.1 h.2)
  · exact Or.inr (unpack_add_of_not_isFinite ha hb h)

theorem isFinite_of_add (ha : AtLeastZero a) (hb : AtLeastZero b)
    (h : (a + b).isFinite = true) : a.isFinite = true ∧ b.isFinite = true := by
  by_contra hne
  rw [isFinite_eq_false_of_unpack (unpack_add_of_not_isFinite ha hb hne)] at h
  cases h

theorem unpack_sub_zero (h : AtLeastZero a) : (a - 0).toModel.unpack = a.toModel.unpack := by
  have hsub : UnpackedFloat.sub Format.binary64 a.toModel.unpack (.zero .positive) =
      a.toModel.unpack := by
    cases a.toModel.unpack with
    | zero s => cases s <;> rfl
    | _ => rfl
  change (Float.ofModel (pack (UnpackedFloat.sub Format.binary64 a.toModel.unpack
    (.zero .positive)))).toModel.unpack = _
  rw [hsub]
  rcases h with ⟨hfin, -⟩ | h
  · obtain ⟨d, hd⟩ := isFinite_iff.mp hfin
    obtain ⟨hc, he⟩ := canonical_of_parts hd
    rw [unpack_eq_of_parts hd]
    exact unpack_eq_of_parts (parts_packed hc he)
  · rw [h]
    exact unpack_top

theorem mul_sub_zero (h : AtLeastZero a) (b : Float) : b * (a - 0) = b * a := by
  change Float.ofModel (pack (UnpackedFloat.mul Format.binary64 b.toModel.unpack
    (a - 0).toModel.unpack)) = _
  rw [h.unpack_sub_zero]
  rfl

theorem unpack_sqrt (ha : a.toModel.unpack = .infinity .positive) :
    a.sqrt.toModel.unpack = .infinity .positive := by
  change (Float.ofModel (pack (UnpackedFloat.sqrt Format.binary64 a.toModel.unpack))).toModel.unpack
    = _
  rw [ha]
  rfl

theorem sqrt (ha : AtLeastZero a) : AtLeastZero a.sqrt := by
  rcases ha with ⟨hfin, h⟩ | h
  · exact of_isRounding (Real.sqrt_nonneg _) (isRounding_sqrt hfin h)
  · exact Or.inr (unpack_sqrt h)

theorem isFinite_of_sqrt (ha : AtLeastZero a) (h : a.sqrt.isFinite = true) :
    a.isFinite = true := by
  by_contra hne
  rw [isFinite_eq_false_of_unpack (unpack_sqrt (ha.unpack_of_not_isFinite
    (Bool.not_eq_true _ ▸ hne)))] at h
  cases h

end AtLeastZero

theorem atLeastZero_zero : AtLeastZero 0 := Or.inl ⟨isFinite_zero, value_zero.ge⟩

theorem atLeastZero_mul_self (ha : a.isFinite = true) : AtLeastZero (a * a) :=
  AtLeastZero.of_isRounding (mul_self_nonneg _) (isRounding_mul ha ha)

theorem isRounding_div_of_unpack {s : Sign} (ha : a.isFinite = true)
    (hb : b.toModel.unpack = .infinity s) : IsRounding 0 (a / b) := by
  change IsRounding _ (.ofModel (pack (UnpackedFloat.div Format.binary64 a.toModel.unpack
    b.toModel.unpack)))
  rcases unpack_cases ha with ⟨t, hu, -⟩ | ⟨t, m, e, hm, hu, -, -⟩
  · rw [hu, hb]
    exact isRounding_zero _
  · rw [hu, hb]
    exact isRounding_zero _

/-! ## Numbers that nothing is above -/

/-- Not-a-number, or infinite above. -/
def Boundless (a : Float) : Prop :=
  a.toModel.unpack = .notANumber ∨ a.toModel.unpack = .infinity .positive

theorem unpack_notANumber :
    (Float.ofModel (pack .notANumber)).toModel.unpack = .notANumber := rfl

theorem Boundless.lt_eq_false (h : Boundless a) (b : Float) : Scalar.lt a b = false := by
  rw [← Bool.not_eq_true]
  intro hlt
  rw [lt_iff_compare] at hlt
  rcases h with h | h <;> rw [h] at hlt
  · cases hlt
  · cases hb : b.toModel.unpack with
    | infinity s => cases s <;> rw [hb] at hlt <;> cases hlt
    | _ =>
      rw [hb] at hlt
      cases hlt

theorem unpack_mul_of_pos (ha : a.isFinite = true) (h : 0 < value a)
    (hb : b.toModel.unpack = .infinity .positive) :
    (a * b).toModel.unpack = .infinity .positive := by
  have hprod : UnpackedFloat.mul Format.binary64 a.toModel.unpack b.toModel.unpack =
      .infinity .positive := by
    rcases unpack_cases ha with ⟨s, -, hv⟩ | ⟨s, m, e, hm, hu, hv, -⟩
    · exact absurd h hv.not_gt
    · cases s with
      | negative =>
        rw [hv, factor, neg_one_mul, Left.neg_pos_iff] at h
        exact absurd h (not_lt.mpr (by positivity))
      | positive =>
        rw [hu, hb]
        rfl
  change (Float.ofModel (pack (UnpackedFloat.mul Format.binary64 a.toModel.unpack
    b.toModel.unpack))).toModel.unpack = _
  rw [hprod]
  exact unpack_top

theorem boundless_mul (ha : a.isFinite = true) (h0 : 0 ≤ value a)
    (hb : b.toModel.unpack = .infinity .positive) : Boundless (a * b) := by
  rcases unpack_cases ha with ⟨s, hu, -⟩ | ⟨s, m, e, hm, -, hv, -⟩
  · left
    change (Float.ofModel (pack (UnpackedFloat.mul Format.binary64 a.toModel.unpack
      b.toModel.unpack))).toModel.unpack = _
    rw [hu, hb]
    exact unpack_notANumber
  · have hne : value a ≠ 0 := by
      rw [hv]
      exact mul_ne_zero (factor_ne_zero s) (by positivity)
    exact Or.inr (unpack_mul_of_pos ha (h0.lt_of_ne' hne) hb)

theorem Boundless.add_zero (h : Boundless a) : Boundless (a + 0) := by
  rcases h with h | h
  · left
    change (Float.ofModel (pack (UnpackedFloat.add Format.binary64 a.toModel.unpack
      (.zero .positive)))).toModel.unpack = _
    rw [h]
    exact unpack_notANumber
  · exact Or.inr (unpack_add_of_isFinite h isFinite_zero)

end Arbor.Binary64
