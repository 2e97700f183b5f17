import Arbor.Color
import Mathlib.Data.String.Basic

/-! # Hexadecimal text reads back

The digits that are written for a number have the number as their value. So a color is
read back from its written form.
-/

namespace Arbor

namespace Text

theorem hexValue_hexDigit : ∀ n < 16, hexValue? (hexDigit n) = some n := by decide

theorem hexDigit_ne_plus : ∀ n < 16, hexDigit n ≠ '+' := by decide

theorem utf8Size_hexDigit : ∀ n < 16, (hexDigit n).utf8Size = 1 := by decide

def hexValues : (width : Nat) → Nat → List Nat
  | 0, _ => []
  | w + 1, n => hexValues w (n / 16) ++ [n % 16]

theorem hexFixed_eq_map (w n : Nat) : hexFixed w n = (hexValues w n).map hexDigit := by
  induction w generalizing n with
  | zero => rfl
  | succ w ih => simp [hexFixed, hexValues, ih]

theorem length_hexValues (w n : Nat) : (hexValues w n).length = w := by
  induction w generalizing n with
  | zero => rfl
  | succ w ih => simp [hexValues, ih]

theorem lt_of_mem_hexValues {w n v : Nat} (h : v ∈ hexValues w n) : v < 16 := by
  induction w generalizing n with
  | zero => cases h
  | succ w ih =>
    rcases List.mem_append.mp h with h | h
    · exact ih h
    · rw [List.mem_singleton.mp h]
      exact Nat.mod_lt n (by decide)

theorem mem_hexFixed {c : Char} {w n : Nat} (h : c ∈ hexFixed w n) : ∃ k < 16, c = hexDigit k := by
  rw [hexFixed_eq_map, List.mem_map] at h
  obtain ⟨v, hv, rfl⟩ := h
  exact ⟨v, lt_of_mem_hexValues hv, rfl⟩

theorem mapM_hexFixed (w n : Nat) : (hexFixed w n).mapM hexValue? = some (hexValues w n) := by
  induction w generalizing n with
  | zero => rfl
  | succ w ih =>
    have hd := hexValue_hexDigit (n % 16) (Nat.mod_lt n (by decide))
    simp [hexFixed, hexValues, List.mapM_append, ih, hd]

theorem foldl_hexValues (w n : Nat) :
    (hexValues w n).foldl (fun n v => n * 16 + v) 0 = n % 16 ^ w := by
  induction w generalizing n with
  | zero => simp [hexValues, Nat.mod_one]
  | succ w ih =>
    rw [hexValues, List.foldl_append, ih, List.foldl_cons, List.foldl_nil, Nat.pow_succ',
      Nat.mod_mul]
    omega

end Text

namespace Color

theorem numeral_hexFixed (w n : Nat) :
    numeral? (Text.hexFixed (w + 1) n) = some (n % 16 ^ (w + 1)) := by
  have hm := Text.mapM_hexFixed (w + 1) n
  have hv := Text.foldl_hexValues (w + 1) n
  cases hs : Text.hexFixed (w + 1) n with
  | nil => simp [Text.hexFixed] at hs
  | cons c r =>
    obtain ⟨k, hk, hc⟩ := Text.mem_hexFixed (hs ▸ List.mem_cons_self : c ∈ _)
    have hplus : c ≠ '+' := hc ▸ Text.hexDigit_ne_plus k hk
    rw [hs] at hm
    simp [numeral?, hplus, hm, hv]

theorem utf8ByteSize_hexFixed (w n : Nat) :
    (String.ofList (Text.hexFixed w n)).utf8ByteSize = w := by
  induction w generalizing n with
  | zero => rfl
  | succ w ih =>
    have hd := Text.utf8Size_hexDigit (n % 16) (Nat.mod_lt n (by decide))
    simp only [String.utf8ByteSize_ofList] at ih
    rw [Text.hexFixed, String.utf8ByteSize_ofList, String.utf8Len_append, ih]
    simp [hd]

theorem toNat_toHex (c : Color) :
    c.toHex.toNat = (c.r.toNat * 256 + c.g.toNat) * 256 + c.b.toNat := by
  have hr := c.r.toNat_lt
  have hg := c.g.toNat_lt
  have hb := c.b.toNat_lt
  have h16 : (c.r.toUInt32 <<< 16).toNat = c.r.toNat <<< 16 := by
    rw [UInt32.toNat_shiftLeft, UInt8.toNat_toUInt32]
    exact Nat.mod_eq_of_lt (by rw [Nat.shiftLeft_eq]; change _ * 65536 < _; omega)
  have h8 : (c.g.toUInt32 <<< 8).toNat = c.g.toNat <<< 8 := by
    rw [UInt32.toNat_shiftLeft, UInt8.toNat_toUInt32]
    exact Nat.mod_eq_of_lt (by rw [Nat.shiftLeft_eq]; change _ * 256 < _; omega)
  have hlow : c.g.toNat <<< 8 + c.b.toNat < 2 ^ 16 := by rw [Nat.shiftLeft_eq]; omega
  rw [toHex, UInt32.toNat_or, UInt32.toNat_or, h16, h8, UInt8.toNat_toUInt32, Nat.or_assoc,
    ← Nat.shiftLeft_add_eq_or_of_lt hb, ← Nat.shiftLeft_add_eq_or_of_lt hlow, Nat.shiftLeft_eq,
    Nat.shiftLeft_eq]
  omega

theorem ofHex_toHex (c : Color) : ofHex c.toHex = c := by
  have hr := c.r.toNat_lt
  have hg := c.g.toNat_lt
  have hb := c.b.toNat_lt
  have hn := toNat_toHex c
  have h16 : (c.toHex >>> 16).toNat % 256 = c.r.toNat := by
    rw [UInt32.toNat_shiftRight, hn, Nat.shiftRight_eq_div_pow]
    change _ / 65536 % 256 = _
    omega
  have h8 : (c.toHex >>> 8).toNat % 256 = c.g.toNat := by
    rw [UInt32.toNat_shiftRight, hn, Nat.shiftRight_eq_div_pow]
    change _ / 256 % 256 = _
    omega
  have h0 : c.toHex.toNat % 256 = c.b.toNat := by omega
  obtain ⟨r, g, b⟩ := c
  simp only [ofHex, Color.mk.injEq]
  refine ⟨UInt8.toNat.inj ?_, UInt8.toNat.inj ?_, UInt8.toNat.inj ?_⟩
  · rw [UInt32.toNat_toUInt8]
    exact h16
  · rw [UInt32.toNat_toUInt8]
    exact h8
  · rw [UInt32.toNat_toUInt8]
    exact h0

theorem toHex_lt (c : Color) : c.toHex.toNat < 16 ^ 6 := by
  have hr := c.r.toNat_lt
  have hg := c.g.toNat_lt
  have hb := c.b.toNat_lt
  rw [toNat_toHex]
  omega

theorem parse_toString (c : Color) : parse? c.toString = some c := by
  have hn : c.toHex.toNat % 16 ^ 6 = c.toHex.toNat := Nat.mod_eq_of_lt (toHex_lt c)
  have hw : c.toHex.toNat.toUInt32 = c.toHex := UInt32.ofNat_toNat
  simp only [parse?, toString, String.toList_ofList, utf8ByteSize_hexFixed, if_pos,
    numeral_hexFixed 5, Option.map_some, hn, hw, ofHex_toHex]

end Color

end Arbor
