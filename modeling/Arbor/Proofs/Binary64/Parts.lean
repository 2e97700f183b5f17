import Arbor.Binary64
import Mathlib

/-! # The parts of machine numbers

The fields that are read from a bit pattern are those that arithmetic is done with. So a
machine number is finite iff it has parts, and its parts are its unpacked form.
-/

namespace Arbor.Binary64

open Float.Model UnpackedFloat

/-! ## Fields -/

theorem fractionField_eq (x : Float) : fractionField x = x.toBits.toNat % 2 ^ 52 := by
  rw [fractionField, UInt64.toNat_and]
  exact Nat.and_two_pow_sub_one_eq_mod _ 52

theorem exponentField_eq (x : Float) : exponentField x = x.toBits.toNat / 2 ^ 52 % 2 ^ 11 := by
  rw [exponentField, UInt64.toNat_and, UInt64.toNat_shiftRight, Nat.shiftRight_eq_div_pow]
  exact Nat.and_two_pow_sub_one_eq_mod _ 11

theorem signBit_eq (x : Float) : signBit x = decide (x.toBits.toNat / 2 ^ 63 = 1) := by
  rw [signBit, Bool.beq_eq_decide_eq, decide_eq_decide, ← UInt64.toNat_inj, UInt64.toNat_shiftRight,
    Nat.shiftRight_eq_div_pow]
  rfl

theorem unpackMantissa_eq (x : Float) :
    (@unpackMantissa Format.binary64 x.toBits.toBitVec).toNat = fractionField x := by
  rw [fractionField_eq]
  simp [unpackMantissa, BitVec.extractLsb]

theorem unpackExponent_eq (x : Float) :
    (@unpackExponent Format.binary64 x.toBits.toBitVec).toNat = exponentField x := by
  rw [exponentField_eq]
  simp [unpackExponent, BitVec.extractLsb, Nat.shiftRight_eq_div_pow]

theorem unpackSign_eq (x : Float) :
    Sign.ofBitVec (@unpackSign Format.binary64 x.toBits.toBitVec) =
      if signBit x then .negative else .positive := by
  have hlt := x.toBits.toNat_lt
  have hs : (@unpackSign Format.binary64 x.toBits.toBitVec).toNat =
      x.toBits.toNat / 2 ^ 63 := by
    simp [unpackSign, BitVec.extractLsb, Nat.shiftRight_eq_div_pow]
    omega
  rw [Sign.ofBitVec]
  by_cases h : x.toBits.toNat / 2 ^ 63 = 1
  · have hne : @unpackSign Format.binary64 x.toBits.toBitVec ≠ 0#1 := by
      intro h0
      rw [h0] at hs
      simp at hs
      omega
    rw [if_neg hne, signBit_eq, if_pos (decide_eq_true h)]
  · have h0 : @unpackSign Format.binary64 x.toBits.toBitVec = 0#1 := by
      rw [← BitVec.toNat_inj, hs]
      simp
      omega
    rw [if_pos h0, signBit_eq, decide_eq_false h]
    rfl

/-! ## Unpacked numbers -/

def Parts.sign (d : Parts) : Sign := if d.negative then .negative else .positive

def Parts.unpacked (d : Parts) : UnpackedFloat :=
  if h : d.significand = 0 then .zero d.sign
  else .finite d.sign d.significand d.exponent (Nat.pos_of_ne_zero h)

/-- The significand has at most fifty-three bits, and all of them wherever the exponent is
not the least one. -/
structure Parts.Canonical (d : Parts) : Prop where
  significand_lt : d.significand < 2 ^ 53
  le_exponent : -1074 ≤ d.exponent
  le_significand : d.exponent ≠ -1074 → 2 ^ 52 ≤ d.significand

theorem fractionField_lt (x : Float) : fractionField x < 2 ^ 52 := by
  rw [fractionField_eq]
  exact Nat.mod_lt _ (by decide)

theorem exponentField_lt (x : Float) : exponentField x < 2 ^ 11 := by
  rw [exponentField_eq]
  exact Nat.mod_lt _ (by decide)

theorem parts_of_exponentField_pos {x : Float} (h : exponentField x ≠ 0x7ff)
    (h0 : exponentField x ≠ 0) :
    parts? x = some ⟨signBit x, 2 ^ 52 + fractionField x, exponentField x - 1075⟩ := by
  unfold parts?
  split
  · next h' => exact absurd h' h
  · next h' => exact absurd h' h0
  · next e he =>
    rw [he]
    simp only [Option.some.injEq, Parts.mk.injEq, true_and]
    exact ⟨rfl, by omega⟩

theorem parts_of_exponentField_eq_zero {x : Float} (h : exponentField x = 0) :
    parts? x = some ⟨signBit x, fractionField x, -1074⟩ := by
  rw [parts?, h]

theorem parts_eq_none_iff {x : Float} : parts? x = none ↔ exponentField x = 0x7ff := by
  constructor
  · intro h
    by_contra hne
    by_cases h0 : exponentField x = 0
    · rw [parts_of_exponentField_eq_zero h0] at h
      cases h
    · rw [parts_of_exponentField_pos hne h0] at h
      cases h
  · intro h
    simp [parts?, h]

theorem unpackMantissa_eq_zero_iff (x : Float) :
    @unpackMantissa Format.binary64 x.toBits.toBitVec = 0#_ ↔ fractionField x = 0 := by
  rw [← BitVec.toNat_inj, unpackMantissa_eq]
  rfl

theorem unpackExponent_eq_max_iff (x : Float) :
    @unpackExponent Format.binary64 x.toBits.toBitVec = -1#_ ↔
      exponentField x = 0x7ff := by
  rw [← BitVec.toNat_inj, unpackExponent_eq]
  rfl

theorem unpackExponent_eq_zero_iff (x : Float) :
    @unpackExponent Format.binary64 x.toBits.toBitVec = 0#_ ↔ exponentField x = 0 := by
  rw [← BitVec.toNat_inj, unpackExponent_eq]
  rfl

theorem unpack_eq_of_parts {x : Float} {d : Parts} (h : parts? x = some d) :
    x.toModel.unpack = d.unpacked := by
  have hne : exponentField x ≠ 0x7ff := by
    intro hmax
    rw [parts_eq_none_iff.mpr hmax] at h
    cases h
  have hs := unpackSign_eq x
  have hm := unpackMantissa_eq x
  have he := unpackExponent_eq x
  have hb : ((Format.binary64.exponentBias : Nat) : Int) = 1023 := rfl
  change UnpackedFloat.unpack Format.binary64 x.toBits.toBitVec = _
  unfold UnpackedFloat.unpack
  dsimp only
  split
  · next hmax => exact absurd ((unpackExponent_eq_max_iff x).mp hmax) hne
  split
  · next h0 =>
    have h0' := (unpackExponent_eq_zero_iff x).mp h0
    rw [parts_of_exponentField_eq_zero h0'] at h
    cases h
    split
    · next hz => simp [Parts.unpacked, Parts.sign, (unpackMantissa_eq_zero_iff x).mp hz, hs]
    · next hz =>
      have hz' := mt (unpackMantissa_eq_zero_iff x).mpr hz
      simp [Parts.unpacked, Parts.sign, hz', hs, hm, he, h0', hb]
  · next h0 =>
    have h0' := mt (unpackExponent_eq_zero_iff x).mpr h0
    rw [parts_of_exponentField_pos hne h0'] at h
    cases h
    have happ : (1#1 ++ @unpackMantissa Format.binary64 x.toBits.toBitVec).toNat =
        2 ^ 52 + fractionField x := by
      rw [BitVec.toNat_append, ← Nat.shiftLeft_add_eq_or_of_lt (BitVec.isLt _), hm]
      simp [Nat.shiftLeft_eq]
    simp [Parts.unpacked, Parts.sign, hs, happ, he, hb]

theorem isFinite_iff {x : Float} : x.isFinite = true ↔ ∃ d, parts? x = some d := by
  constructor
  · intro h
    rw [← Option.isSome_iff_exists, ← Option.ne_none_iff_isSome, ne_eq, parts_eq_none_iff]
    intro hmax
    have hu : x.toModel.unpack.isFinite = false := by
      change (UnpackedFloat.unpack Format.binary64 x.toBits.toBitVec).isFinite = false
      unfold UnpackedFloat.unpack
      dsimp only
      rw [if_pos ((unpackExponent_eq_max_iff x).mpr hmax)]
      split <;> rfl
    exact absurd (h.symm.trans hu) (by decide)
  · rintro ⟨d, hd⟩
    change x.toModel.unpack.isFinite = true
    rw [unpack_eq_of_parts hd, Parts.unpacked]
    split <;> rfl

theorem canonical_of_parts {x : Float} {d : Parts} (h : parts? x = some d) :
    d.Canonical ∧ d.exponent ≤ 971 := by
  have hf := fractionField_lt x
  have he := exponentField_lt x
  by_cases h0 : exponentField x = 0
  · rw [parts_of_exponentField_eq_zero h0] at h
    cases h
    exact ⟨⟨by dsimp only; omega, le_rfl, fun hne => absurd rfl hne⟩, by dsimp only; omega⟩
  · have hne : exponentField x ≠ 0x7ff := by
      intro hmax
      rw [parts_eq_none_iff.mpr hmax] at h
      cases h
    rw [parts_of_exponentField_pos hne h0] at h
    cases h
    exact ⟨⟨by dsimp only; omega, by dsimp only; omega, fun _ => by dsimp only; omega⟩,
      by dsimp only; omega⟩

/-! ## Packed numbers -/

/-- The machine number with given parts, if it has that many; infinite for too large parts. -/
def Parts.packed (d : Parts) : Float := .ofModel (Float.Model.pack d.unpacked)

section Fields

variable {x : Float} {s : Sign} {e : BitVec 11} {m : BitVec 52}
  (h : x.toBits.toBitVec = packComponents Format.binary64 s e m)

include h

theorem fractionField_packComponents : fractionField x = m.toNat := by
  rw [← unpackMantissa_eq, h, unpackMantissa_packComponents]

theorem exponentField_packComponents : exponentField x = e.toNat := by
  rw [← unpackExponent_eq, h, unpackExponent_packComponents]

theorem signBit_packComponents : signBit x = (s == .negative) := by
  have hb : x.toBits.toNat = (packComponents Format.binary64 s e m).toNat := by
    rw [← h]
    rfl
  rw [packComponents, BitVec.toNat_append, BitVec.toNat_append,
    ← Nat.shiftLeft_add_eq_or_of_lt m.isLt, ← Nat.shiftLeft_add_eq_or_of_lt e.isLt,
    Nat.shiftLeft_eq, Nat.shiftLeft_eq] at hb
  have he := e.isLt
  have hm := m.isLt
  rw [signBit_eq, hb]
  cases s with
  | negative =>
    rw [show Sign.negative.toBitVec.toNat = 1 from rfl]
    exact decide_eq_true (by omega)
  | positive =>
    rw [show Sign.positive.toBitVec.toNat = 0 from rfl]
    exact decide_eq_false (by omega)

end Fields

theorem sign_eq_negative (d : Parts) : (d.sign == .negative) = d.negative := by
  unfold Parts.sign
  cases d.negative <;> rfl

theorem Parts.Canonical.exponent_of_significand_eq_zero {d : Parts} (h : d.Canonical)
    (h0 : d.significand = 0) : d.exponent = -1074 := by
  by_contra he
  have := h.le_significand he
  omega

/-- A significand of full length is packed with its exponent, a shorter one with the least. -/
theorem toBits_packed {d : Parts} (hc : d.Canonical) (he : d.exponent ≤ 971)
    (h0 : d.significand ≠ 0) :
    d.packed.toBits.toBitVec = packComponents Format.binary64 d.sign
      (if 2 ^ 52 ≤ d.significand then .ofNat 11 (d.exponent + 1075).toNat else 0)
      (.ofNat 52 d.significand) := by
  have hlt := hc.significand_lt
  have hle := hc.le_exponent
  have hlog : 2 ^ 52 ≤ d.significand ↔ d.significand.log2 + 1 = Format.binary64.mantissaBits := by
    rw [show Format.binary64.mantissaBits = 52 + 1 from rfl, Nat.add_right_cancel_iff,
      Nat.log2_eq_iff h0]
    exact (and_iff_left hlt).symm
  have hfits : ¬2 ^ Format.binary64.exponentBits ≤
      (d.exponent + Format.binary64.exponentBias +
        Format.binary64.mantissaBitsWithoutImplicit).toNat + 1 := by
    rw [show ((Format.binary64.exponentBias : Nat) : Int) = 1023 from rfl]
    simp only
    omega
  have hpack : d.packed.toBits.toBitVec = UnpackedFloat.pack Format.binary64
      (.finite d.sign d.significand d.exponent (Nat.pos_of_ne_zero h0)) := by
    rw [Parts.packed, Parts.unpacked, dif_neg h0]
    rfl
  rw [hpack, UnpackedFloat.pack]
  dsimp only
  rw [if_neg hfits]
  by_cases h : 2 ^ 52 ≤ d.significand
  · have hexp : d.exponent + ((Format.binary64.exponentBias : Nat) : Int) + ((52 : Nat) : Int) =
        d.exponent + 1075 := add_assoc _ _ _
    rw [if_pos h, if_pos (hlog.mp h), hexp]
  · rw [if_neg h, if_neg (mt hlog.mpr h)]
    rfl

theorem parts_packed {d : Parts} (hc : d.Canonical) (he : d.exponent ≤ 971) :
    parts? d.packed = some d := by
  obtain ⟨negative, m, e⟩ := d
  have hlt := hc.significand_lt
  have hle := hc.le_exponent
  by_cases h0 : m = 0
  · subst h0
    obtain rfl : e = -1074 := hc.exponent_of_significand_eq_zero rfl
    cases negative <;> rfl
  · have hbits := toBits_packed hc he h0
    have hf := fractionField_packComponents hbits
    have hexp := exponentField_packComponents hbits
    have hs := signBit_packComponents hbits
    dsimp only at hlt hle he hf hexp
    rw [BitVec.toNat_ofNat] at hf
    rw [sign_eq_negative] at hs
    by_cases hm : 2 ^ 52 ≤ m
    · rw [if_pos hm, BitVec.toNat_ofNat] at hexp
      rw [parts_of_exponentField_pos (by omega) (by omega), hs, hexp, hf]
      simp only [Option.some.injEq, Parts.mk.injEq, true_and]
      omega
    · obtain rfl : e = -1074 := by
        by_contra hne
        exact hm (hc.le_significand hne)
      rw [if_neg hm] at hexp
      have hf' : m % 2 ^ 52 = m := Nat.mod_eq_of_lt (not_le.mp hm)
      rw [parts_of_exponentField_eq_zero hexp, hs, hf, hf']

theorem toBits_packed_of_lt {d : Parts} (hc : d.Canonical) (he : 971 < d.exponent) :
    d.packed.toBits.toBitVec = packComponents Format.binary64 d.sign (-1#_) 0 := by
  have hne : d.significand ≠ 0 := by
    intro h0
    rw [hc.exponent_of_significand_eq_zero h0] at he
    omega
  have hover : 2 ^ Format.binary64.exponentBits ≤
      (d.exponent + Format.binary64.exponentBias +
        Format.binary64.mantissaBitsWithoutImplicit).toNat + 1 := by
    rw [show ((Format.binary64.exponentBias : Nat) : Int) = 1023 from rfl]
    simp only
    omega
  have hpack : UnpackedFloat.pack Format.binary64
      (.finite d.sign d.significand d.exponent (Nat.pos_of_ne_zero hne)) =
      packedInfinity Format.binary64 d.sign := by
    rw [UnpackedFloat.pack]
    dsimp only
    rw [if_pos hover]
  rw [Parts.packed, Parts.unpacked, dif_neg hne]
  exact hpack

theorem isFinite_packed_iff {d : Parts} (hc : d.Canonical) :
    d.packed.isFinite = true ↔ d.exponent ≤ 971 := by
  constructor
  · intro h
    by_contra he
    have hmax := exponentField_packComponents (toBits_packed_of_lt hc (not_le.mp he))
    obtain ⟨d', hd'⟩ := isFinite_iff.mp h
    rw [parts_eq_none_iff.mpr hmax] at hd'
    cases hd'
  · intro he
    exact isFinite_iff.mpr ⟨d, parts_packed hc he⟩

theorem unpack_packed_of_lt {d : Parts} (hc : d.Canonical) (he : 971 < d.exponent) :
    d.packed.toModel.unpack = .infinity d.sign := by
  have hbits := toBits_packed_of_lt hc he
  change UnpackedFloat.unpack Format.binary64 d.packed.toBits.toBitVec = _
  have hs : Sign.ofBitVec (@unpackSign Format.binary64 d.packed.toBits.toBitVec) = d.sign := by
    rw [unpackSign_eq, signBit_packComponents hbits, Parts.sign]
    cases d.negative <;> rfl
  unfold UnpackedFloat.unpack
  dsimp only
  rw [if_pos ((unpackExponent_eq_max_iff _).mpr (exponentField_packComponents hbits)),
    if_pos ((unpackMantissa_eq_zero_iff _).mpr (fractionField_packComponents hbits)), hs]

end Arbor.Binary64
