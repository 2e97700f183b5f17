import Arbor.Proofs.Binary64.Scaling

/-! # Points between two numbers

A point between two numbers is the lower one and a part of the width. The width, the part and
their sum are rounded one after the other. The point is never below the lower number, and if the
width does not overflow and the part stays away from the whole, it is never above the upper one.
It may meet the upper one, unless the width is exact and as large as that number.
-/

namespace Arbor.Binary64

open Float.Model UnpackedFloat

variable {a b u t : Float}

/-! ## Order -/

theorem IsRounding.value_le_value {x z : Float} {y w : ℝ} (hyx : IsRounding y x)
    (hwz : IsRounding w z) (hx : x.isFinite = true) (hz : z.isFinite = true) (h : y < w) :
    value x ≤ value z := by
  by_contra hlt
  rw [not_le] at hlt
  rcases le_or_gt (value x + value z) (2 * y) with hhigh | hlow
  · -- the other real number is nearer to the greater rounding, too
    have hnear := abs_le.mp (hwz.nearest hz _ (representable_value x))
    rcases abs_cases (value x - w) with ⟨he, -⟩ | ⟨he, -⟩ <;> rw [he] at hnear <;> linarith
  · exact absurd (hyx.value_lt hx (representable_value z) hlt (by linarith)) (lt_irrefl _)

theorem unpack_eq_of_value_eq (ha : a.isFinite = true) (hb : b.isFinite = true)
    (hpos : 0 < value b) (h : value a = value b) : a.toModel.unpack = b.toModel.unpack := by
  obtain ⟨m, e, hparts, hc, hv⟩ := exists_parts_of_pos hb hpos
  have hmag : value a = (⟨false, m, e⟩ : Parts).magnitude := h.trans hv
  rw [unpack_eq_of_parts hparts,
    unpack_eq_of_parts (parts_of_value ha hc rfl (hmag ▸ h ▸ hpos) hmag)]

theorem value_add_le_value_add {x z c : Float} (hx : x.isFinite = true) (hz : z.isFinite = true)
    (hc : c.isFinite = true) (hxc : (x + c).isFinite = true) (hzc : (z + c).isFinite = true)
    (h0 : 0 ≤ value x) (h : value x ≤ value z) : value (x + c) ≤ value (z + c) := by
  have hx_sum := isRounding_add hx hc
  have hz_sum := isRounding_add hz hc
  rcases h.lt_or_eq with hlt | heq
  · exact hx_sum.value_le_value hz_sum hxc hzc (add_lt_add_left hlt _)
  · rcases h0.lt_or_eq with hpos | hzero
    · have hsum : x + c = z + c := by
        change Float.ofModel (pack (UnpackedFloat.add Format.binary64 x.toModel.unpack
          c.toModel.unpack)) = _
        rw [unpack_eq_of_value_eq hx hz (heq ▸ hpos) heq]
        rfl
      rw [hsum]
    · -- a zero leaves the other term as it is
      rw [← hzero, zero_add] at hx_sum
      rw [← heq, ← hzero, zero_add] at hz_sum
      rw [(hx_sum.value_eq (representable_value c) (abs_value_lt c)).2,
        (hz_sum.value_eq (representable_value c) (abs_value_lt c)).2]

/-! ## The width -/

theorem unpack_sub_of_not_isFinite (ha : a.isFinite = true) (hb : b.isFinite = true)
    (hab : value a < value b) (h : (b - a).isFinite = false) :
    (b - a).toModel.unpack = .infinity .positive := by
  obtain ⟨s, hs, hpos⟩ := (isRounding_sub hb ha).infinite h
  cases s with
  | negative =>
    rw [factor] at hpos
    linarith
  | positive => exact hs

/-- Two numbers in order whose width does not overflow. -/
structure Stretch (a b : Float) : Prop where
  lower : a.isFinite = true
  upper : b.isFinite = true
  lt : value a < value b
  width : (b - a).isFinite = true

/-- A number from zero on that stays away from one. -/
structure Portion (u : Float) : Prop where
  finite : u.isFinite = true
  nonneg : 0 ≤ value u
  le : value u ≤ 1 - 2 ^ (-52 : ℤ)

theorem Portion.le_one (hu : Portion u) : value u ≤ 1 := hu.le.trans (by norm_num)

namespace Stretch

variable (h : Stretch a b)

include h

theorem isRounding_width : IsRounding (value b - value a) (b - a) :=
  isRounding_sub h.upper h.lower

theorem width_pos : 0 < value (b - a) := by
  have hstep := (representable_value a).add_two_zpow_le (representable_value b) h.lt
  have hle := h.isRounding_width.le_value h.width (Representable.two_zpow le_rfl)
    (le_sub_iff_add_le'.mpr hstep)
  exact lt_of_lt_of_le (by positivity) hle

/-- A small width is exact, as both numbers lie on the grid of the least one. -/
theorem width_of_le (hle : value (b - a) ≤ 2 ^ (-1023 : ℤ)) :
    value (b - a) = value b - value a := by
  have hround := h.isRounding_width
  obtain ⟨j, hj⟩ := (representable_value a).exists_eq_mul
  obtain ⟨k, hk⟩ := (representable_value b).exists_eq_mul
  have hdiff : value b - value a = ((k - j : ℤ) : ℝ) * 2 ^ (-1074 : ℤ) := by
    rw [hj, hk]
    push_cast
    ring
  by_cases hlt : |k - j| < 2 ^ 53
  · have hrep : Representable (value b - value a) := ⟨k - j, -1074, hlt, le_rfl, hdiff⟩
    exact le_antisymm (hround.value_le h.width hrep le_rfl) (hround.le_value h.width hrep le_rfl)
  · have hpos : 0 < k - j := by
      have hcast : (0 : ℝ) < ((k - j : ℤ) : ℝ) :=
        pos_of_mul_pos_left (hdiff ▸ sub_pos.mpr h.lt) (by positivity)
      exact_mod_cast hcast
    rw [abs_of_pos hpos, not_lt] at hlt
    have hwide : (2 : ℝ) ^ (-1021 : ℤ) ≤ value b - value a := by
      rw [hdiff, show (-1021 : ℤ) = 53 + -1074 by norm_num, zpow_add₀ two_ne_zero]
      exact mul_le_mul_of_nonneg_right (by exact_mod_cast hlt) (by positivity)
    have hless : (2 : ℝ) ^ (-1023 : ℤ) < 2 ^ (-1021 : ℤ) :=
      zpow_lt_zpow_right₀ one_lt_two (by norm_num)
    exact absurd ((hround.le_value h.width (Representable.two_zpow (by norm_num)) hwide).trans hle)
      hless.not_ge

/-! ## A part of the width -/

variable (hu : Portion u)

include hu

theorem isFinite_part : (u * (b - a)).isFinite = true :=
  isFinite_mul_of_le_one hu.finite h.width hu.nonneg h.width_pos hu.le_one

theorem isRounding_part : IsRounding (value u * value (b - a)) (u * (b - a)) :=
  isRounding_mul hu.finite h.width

theorem part_nonneg : 0 ≤ value (u * (b - a)) :=
  (h.isRounding_part hu).le_value (h.isFinite_part hu) Representable.zero
    (mul_nonneg hu.nonneg h.width_pos.le)

theorem part_lt_width (hlarge : (2 : ℝ) ^ (-1023 : ℤ) < value (b - a)) :
    value (u * (b - a)) < value (b - a) :=
  value_mul_lt_of_le hu.finite h.width hu.nonneg h.width_pos hu.le hlarge

/-- A part of the width is at most the exact width, even where the width was rounded up. -/
theorem part_le : value (u * (b - a)) ≤ value b - value a := by
  by_cases hsmall : value (b - a) ≤ 2 ^ (-1023 : ℤ)
  · rw [← h.width_of_le hsmall]
    exact (h.isRounding_part hu).value_le (h.isFinite_part hu) (representable_value _)
      (mul_le_of_le_one_left h.width_pos.le hu.le_one)
  · have hlt := h.part_lt_width hu (not_le.mp hsmall)
    -- Otherwise it would be nearer to the exact width than the rounded width is.
    by_contra hover
    rw [not_le] at hover
    have hnear := h.isRounding_width.nearest h.width _ (representable_value (u * (b - a)))
    rw [abs_of_pos (by linarith), abs_of_pos (by linarith)] at hnear
    linarith

/-! ## The point -/

theorem point_mem :
    (u * (b - a) + a).isFinite = true ∧ value (u * (b - a) + a) ∈ Set.Icc (value a) (value b) := by
  have hround := isRounding_add (h.isFinite_part hu) h.lower
  have hlow : value a ≤ value (u * (b - a)) + value a :=
    le_add_of_nonneg_left (h.part_nonneg hu)
  have hhigh : value (u * (b - a)) + value a ≤ value b := le_sub_iff_add_le.mp (h.part_le hu)
  have hlarger : Representable (max |value a| |value b|) ∧
      max |value a| |value b| < 2 ^ (1024 : ℤ) := by
    rcases max_choice |value a| |value b| with h | h <;> rw [h]
    · exact ⟨(representable_value a).abs, abs_value_lt a⟩
    · exact ⟨(representable_value b).abs, abs_value_lt b⟩
  have hpoint := hround.isFinite _ hlarger.1 hlarger.2 (abs_le_max_abs_abs hlow hhigh)
  exact ⟨hpoint, hround.le_value hpoint (representable_value a) hlow,
    hround.value_le hpoint (representable_value b) hhigh⟩

/-- If a point is below the upper number, so are the points of smaller portions. -/
theorem point_lt_of_lt (ht : Portion t) (hut : value u < value t)
    (hlt : value (t * (b - a) + a) < value b) : value (u * (b - a) + a) < value b := by
  have hpart : value (u * (b - a)) ≤ value (t * (b - a)) :=
    (h.isRounding_part hu).value_le_value (h.isRounding_part ht) (h.isFinite_part hu)
      (h.isFinite_part ht) (mul_lt_mul_of_pos_right hut h.width_pos)
  exact (value_add_le_value_add (h.isFinite_part hu) (h.isFinite_part ht) h.lower
    (h.point_mem hu).1 (h.point_mem ht).1 (h.part_nonneg hu) hpart).trans_lt hlt

/-- A part of an exact width misses it by a unit of its last place. -/
theorem exists_part_le (hexact : value (b - a) = value b - value a)
    (hlarge : (2 : ℝ) ^ (-1023 : ℤ) < value (b - a)) :
    ∃ m e, (⟨false, m, e⟩ : Parts).Canonical ∧ value b - value a = m * 2 ^ e ∧
      value (u * (b - a)) ≤ value b - value a - 2 ^ e := by
  obtain ⟨m, e, hparts, hc, hv⟩ := exists_parts_of_pos h.width h.width_pos
  refine ⟨m, e, hc, hexact.symm.trans hv, ?_⟩
  rw [← hexact]
  by_cases he : e = -1074
  · rw [he]
    exact le_sub_iff_add_le.mpr ((representable_value _).add_two_zpow_le (representable_value _)
      (h.part_lt_width hu hlarge))
  · have hrep : Representable (value (b - a) - 2 ^ e) :=
      value_of_parts hparts ▸ hc.representable_sub_unit
    refine (h.isRounding_part hu).value_le (h.isFinite_part hu) hrep ?_
    have hfull : (2 : ℝ) ^ (52 : ℤ) ≤ m := by exact_mod_cast hc.le_significand he
    have hunit : (2 : ℝ) ^ e ≤ 2 ^ (-52 : ℤ) * value (b - a) := by
      calc (2 : ℝ) ^ e = 2 ^ (-52 : ℤ) * (2 ^ (52 : ℤ) * 2 ^ e) := by
            rw [← mul_assoc, ← zpow_add₀ two_ne_zero]
            norm_num
        _ ≤ 2 ^ (-52 : ℤ) * value (b - a) := by
          rw [hv]
          gcongr
    calc value u * value (b - a) ≤ (1 - 2 ^ (-52 : ℤ)) * value (b - a) :=
          mul_le_mul_of_nonneg_right hu.le h.width_pos.le
      _ ≤ value (b - a) - 2 ^ e := by linarith

theorem point_lt (hexact : value (b - a) = value b - value a)
    (hwide : |value b| ≤ value b - value a)
    (hlarge : (2 : ℝ) ^ (-1023 : ℤ) < value b - value a) :
    value (u * (b - a) + a) < value b := by
  obtain ⟨m, e, hc, hv, hpart⟩ := h.exists_part_le hu hexact (hexact ▸ hlarge)
  obtain ⟨d, hd⟩ := isFinite_iff.mp h.upper
  have hdc := (canonical_of_parts hd).1
  have hvb := value_of_parts hd
  -- The unit of the upper number is no larger than the unit of the width.
  have hfe : d.exponent ≤ e := by
    by_contra hlt
    have hmag : (⟨false, m, e⟩ : Parts).magnitude < d.magnitude :=
      hc.magnitude_lt hdc (not_le.mp hlt)
    rw [← d.abs_value, ← hvb, Parts.magnitude] at hmag
    exact hmag.not_ge (hv ▸ hwide)
  have hbelow : Representable (value b - 2 ^ d.exponent) := hvb ▸ hdc.representable_sub_unit
  have hunit : (2 : ℝ) ^ d.exponent ≤ 2 ^ e := zpow_le_zpow_right₀ one_le_two hfe
  have hle := (isRounding_add (h.isFinite_part hu) h.lower).value_le (h.point_mem hu).1 hbelow
    (by linarith)
  exact hle.trans_lt (sub_lt_self _ (by positivity))

end Stretch

end Arbor.Binary64
