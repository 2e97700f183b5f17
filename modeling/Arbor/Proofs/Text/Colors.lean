import Arbor.Config.Reading
import Arbor.Proofs.Text.Hex
import Mathlib.Data.List.Forall2
import Mathlib.Data.List.Induction

/-! # Texts that are read as colors

A text is a color if it consists of six hexadecimal digits, apart from a hash sign in front. One
more sign is let through: a plus sign in the place of the first digit is read as a zero.
-/

namespace Arbor

namespace Text

def DigitOf (d : Char) (v : Nat) : Prop := v < 16 ∧ d.toLower = hexDigit v

variable {d : Char} {v : Nat}

theorem bounds_of_hexValue (h : hexValue? d = some v) : d.toNat < 128 ∧ v < 16 := by
  have hle (a b : Char) : a ≤ b ↔ a.toNat ≤ b.toNat := Iff.rfl
  simp only [hexValue?, hle] at h
  split at h
  · cases h
    simp at *
    omega
  split at h
  · cases h
    simp at *
    omega
  split at h
  · cases h
    simp at *
    omega
  · cases h

theorem toNat_lt_of_toLower (h : d.toLower.toNat < 128) : d.toNat < 128 := by
  unfold Char.toLower at h
  split at h
  · next hd => exact Nat.lt_of_le_of_lt hd.2 (by decide)
  · exact h

theorem toNat_hexDigit_lt : ∀ v < 16, (hexDigit v).toNat < 128 := by decide

theorem hexValue_ascii : ∀ n < 128, ∀ v < 16,
    hexValue? (Char.ofNat n) = some v ↔ (Char.ofNat n).toLower = hexDigit v := by
  decide +kernel

theorem hexValue_eq_some_iff : hexValue? d = some v ↔ DigitOf d v := by
  -- Whatever has a value and whatever is a digit in lower case is among the first 128 characters.
  constructor
  · intro h
    obtain ⟨hd, hv⟩ := bounds_of_hexValue h
    refine ⟨hv, ?_⟩
    rw [← Char.ofNat_toNat d] at h ⊢
    exact (hexValue_ascii _ hd _ hv).mp h
  · rintro ⟨hv, h⟩
    have hd : d.toNat < 128 := toNat_lt_of_toLower (h ▸ toNat_hexDigit_lt v hv)
    rw [← Char.ofNat_toNat d] at h ⊢
    exact (hexValue_ascii _ hd _ hv).mpr h

theorem mapM_eq_some_iff {α β : Type} {f : α → Option β} {xs : List α} {ys : List β} :
    xs.mapM f = some ys ↔ List.Forall₂ (fun x y => f x = some y) xs ys := by
  induction xs generalizing ys with
  | nil => simp [eq_comm]
  | cons x xs ih =>
    rw [List.forall₂_cons_left_iff]
    simp only [List.mapM_cons, Option.bind_eq_bind, Option.bind_eq_some_iff, ih,
      Option.pure_def, Option.some_inj]
    constructor
    · rintro ⟨y, hy, ys, h, rfl⟩
      exact ⟨y, ys, hy, h, rfl⟩
    · rintro ⟨y, ys, hy, h, rfl⟩
      exact ⟨y, hy, ys, h, rfl⟩

theorem mapM_hexValue {ds : List Char} {vs : List Nat} :
    ds.mapM hexValue? = some vs ↔ List.Forall₂ DigitOf ds vs := by
  simp only [mapM_eq_some_iff, hexValue_eq_some_iff]

theorem utf8Len_of_digits {ds : List Char} {vs : List Nat} (h : List.Forall₂ DigitOf ds vs) :
    String.utf8Len ds = vs.length := by
  induction h with
  | nil => rfl
  | cons hd _ ih =>
    have hlt := (bounds_of_hexValue (hexValue_eq_some_iff.mpr hd)).1
    have hsize := Char.utf8Size_eq_one_iff.mpr (Nat.le_of_lt_succ hlt)
    rw [String.utf8Len_cons, ih, hsize, List.length_cons]

theorem forall₂_digitOf_iff {ds : List Char} {vs : List Nat} (h : ∀ v ∈ vs, v < 16) :
    List.Forall₂ DigitOf ds vs ↔ ds.map Char.toLower = vs.map hexDigit := by
  induction vs generalizing ds with
  | nil => simp
  | cons v vs ih =>
    rw [List.forall_mem_cons] at h
    cases ds with
    | nil => simp
    | cons d ds => simp [DigitOf, h.1, ih h.2]

theorem lt_of_forall₂_digitOf {ds : List Char} {vs : List Nat} (h : List.Forall₂ DigitOf ds vs) :
    ∀ v ∈ vs, v < 16 := by
  induction h with
  | nil => simp
  | cons hd _ ih => exact List.forall_mem_cons.mpr ⟨hd.1, ih⟩

theorem exists_forall₂_digitOf_iff {ds : List Char} :
    (∃ vs, List.Forall₂ DigitOf ds vs) ↔ ∀ d ∈ ds, ∃ v, DigitOf d v := by
  induction ds with
  | nil => simp
  | cons d ds ih =>
    simp [List.forall₂_cons_left_iff, ← ih]

def ofValues (vs : List Nat) : Nat := vs.foldl (fun n v => n * 16 + v) 0

theorem ofValues_concat (vs : List Nat) (v : Nat) :
    ofValues (vs ++ [v]) = ofValues vs * 16 + v := by
  simp [ofValues]

theorem ofValues_lt {vs : List Nat} (h : ∀ v ∈ vs, v < 16) : ofValues vs < 16 ^ vs.length := by
  induction vs using List.reverseRecOn with
  | nil => exact Nat.one_pos
  | append_singleton vs v ih =>
    rw [List.forall_mem_append, List.forall_mem_singleton] at h
    have hvs := ih h.1
    rw [ofValues_concat, List.length_append, List.length_singleton, Nat.pow_succ]
    omega

theorem hexValues_ofValues {vs : List Nat} (h : ∀ v ∈ vs, v < 16) :
    hexValues vs.length (ofValues vs) = vs := by
  induction vs using List.reverseRecOn with
  | nil => rfl
  | append_singleton vs v ih =>
    rw [List.forall_mem_append, List.forall_mem_singleton] at h
    have hdiv : ofValues (vs ++ [v]) / 16 = ofValues vs := by
      rw [ofValues_concat]
      omega
    have hmod : ofValues (vs ++ [v]) % 16 = v := by
      rw [ofValues_concat]
      omega
    rw [List.length_append, List.length_singleton, hexValues, hdiv, hmod, ih h.1]

end Text

namespace Color

open Text

def unhashed (s : String) : List Char :=
  match s.toList with
  | '#' :: r => r
  | r => r

/-- The digits that a text is read as; a plus sign in front of all others stands for a zero. -/
def digits (s : String) : List Char :=
  match unhashed s with
  | '+' :: r => '0' :: r
  | r => r

variable {s : String} {c : Color}

theorem digits_cases (s : String) :
    (unhashed s).head? ≠ some '+' ∧ digits s = unhashed s ∨
      ∃ r, unhashed s = '+' :: r ∧ digits s = '0' :: r := by
  unfold digits
  split
  · next r h => exact .inr ⟨r, h, rfl⟩
  · next hne =>
    refine .inl ⟨?_, rfl⟩
    rw [Ne, List.head?_eq_some_iff, not_exists]
    exact hne

theorem numeral_of_ne {ds : List Char} (hp : ds.head? ≠ some '+') (h : ds ≠ []) :
    numeral? ds = (ds.mapM hexValue?).map ofValues := by
  unfold numeral?
  dsimp only
  split
  · exact absurd rfl hp
  · exact if_neg h

theorem numeral_plus {ds : List Char} (h : ds ≠ []) :
    numeral? ('+' :: ds) = (('0' :: ds).mapM hexValue?).map ofValues := by
  have hzero : hexValue? '0' = some 0 := rfl
  have hplus : numeral? ('+' :: ds) = (ds.mapM hexValue?).map ofValues := if_neg h
  rw [hplus]
  cases hm : ds.mapM hexValue? <;> simp [hm, hzero, ofValues]

theorem parse_eq (s : String) :
    parse? s = if String.utf8Len (digits s) = 6 then
      ((digits s).mapM hexValue?).map fun vs => ofHex (ofValues vs).toUInt32 else none := by
  have hparse : parse? s = if String.utf8Len (unhashed s) = 6 then
      (numeral? (unhashed s)).map fun n => ofHex n.toUInt32 else none := by
    rw [← String.utf8ByteSize_ofList]
    rfl
  have hplus : '+'.utf8Size = '0'.utf8Size := rfl
  rw [hparse]
  rcases digits_cases s with ⟨hp, hd⟩ | ⟨r, hu, hd⟩
  · rw [hd]
    refine if_ctx_congr Iff.rfl (fun hlen => ?_) fun _ => rfl
    rw [numeral_of_ne hp (by rintro h; rw [h] at hlen; cases hlen), Option.map_map]
    rfl
  · rw [hu, hd, String.utf8Len_cons, String.utf8Len_cons, hplus]
    refine if_ctx_congr Iff.rfl (fun hlen => ?_) fun _ => rfl
    rw [numeral_plus (by rintro rfl; cases hlen), Option.map_map]
    rfl

theorem toHex_ofHex {n : UInt32} (h : n.toNat < 16 ^ 6) : (ofHex n).toHex = n := by
  have h16 : (n >>> 16).toNat = n.toNat / 65536 := by
    rw [UInt32.toNat_shiftRight, Nat.shiftRight_eq_div_pow]
    rfl
  have h8 : (n >>> 8).toNat = n.toNat / 256 := by
    rw [UInt32.toNat_shiftRight, Nat.shiftRight_eq_div_pow]
    rfl
  rw [← UInt32.toNat_inj, toNat_toHex]
  simp only [ofHex, UInt32.toNat_toUInt8, h16, h8]
  omega

theorem ofHex_eq_iff {n : Nat} (h : n < 16 ^ 6) : ofHex n.toUInt32 = c ↔ n = c.toHex.toNat := by
  have hn : n.toUInt32.toNat = n := UInt32.toNat_ofNat_of_lt (by rw [UInt32.size]; omega)
  constructor
  · rintro rfl
    rw [toHex_ofHex (hn.trans_lt h), hn]
  · intro hc
    rw [← ofHex_toHex c, ← UInt32.toNat_inj.mp (hn.trans hc)]

theorem parse_eq_some_iff :
    parse? s = some c ↔ List.Forall₂ DigitOf (digits s) (hexValues 6 c.toHex.toNat) := by
  rw [parse_eq, Option.ite_none_right_eq_some, Option.map_eq_some_iff]
  constructor
  · rintro ⟨hlen, vs, hvs, hc⟩
    rw [mapM_hexValue] at hvs
    rw [utf8Len_of_digits hvs] at hlen
    have hlt := lt_of_forall₂_digitOf hvs
    have hn := ofValues_lt hlt
    rw [hlen] at hn
    rw [← (ofHex_eq_iff hn).mp hc, ← hlen, hexValues_ofValues hlt]
    exact hvs
  · intro h
    refine ⟨by rw [utf8Len_of_digits h, length_hexValues], _, mapM_hexValue.mpr h, ?_⟩
    have hn : ofValues (hexValues 6 c.toHex.toNat) = c.toHex.toNat :=
      (foldl_hexValues 6 _).trans (Nat.mod_eq_of_lt (toHex_lt c))
    exact (ofHex_eq_iff (hn.trans_lt (toHex_lt c))).mpr hn

theorem exists_parse_iff :
    (∃ c, parse? s = some c) ↔
      (digits s).length = 6 ∧ ∀ d ∈ digits s, ∃ v, DigitOf d v := by
  simp only [parse_eq_some_iff]
  constructor
  · rintro ⟨c, h⟩
    exact ⟨h.length_eq.trans (length_hexValues _ _), exists_forall₂_digitOf_iff.mp ⟨_, h⟩⟩
  · rintro ⟨hlen, h⟩
    obtain ⟨vs, hvs⟩ := exists_forall₂_digitOf_iff.mpr h
    have hlt := lt_of_forall₂_digitOf hvs
    have hn := ofValues_lt hlt
    rw [← hvs.length_eq, hlen] at hn
    refine ⟨ofHex (ofValues vs).toUInt32, ?_⟩
    rw [← (ofHex_eq_iff hn).mp rfl, ← hlen, hvs.length_eq, hexValues_ofValues hlt]
    exact hvs

theorem toString_eq_iff : c.toString = String.ofList ('#' :: (digits s).map Char.toLower) ↔
    parse? s = some c := by
  rw [parse_eq_some_iff, forall₂_digitOf_iff fun v => lt_of_mem_hexValues, ← hexFixed_eq_map,
    toString, String.ofList_inj, List.cons_inj_right, eq_comm]

theorem hexValues_toHex (c : Color) : hexValues 6 c.toHex.toNat =
    [c.r.toNat / 16, c.r.toNat % 16, c.g.toNat / 16, c.g.toNat % 16, c.b.toNat / 16,
      c.b.toNat % 16] := by
  have hr := c.r.toNat_lt
  have hg := c.g.toNat_lt
  have hb := c.b.toNat_lt
  simp [hexValues, toNat_toHex]
  omega

theorem colorOf_scalar (s : String) (style : Yaml.Style) (tag : Option String)
    (document : Yaml.Document) (aliases : Nat) :
    Config.colorOf (.scalar s style tag) document aliases =
      match parse? s with
      | some c => .ok (c, aliases)
      | none => .error (.fault (.color s)) := by
  change (match parse? s with
    | some c => (return c : Config.Loader Color)
    | none => throw (Config.LoadError.fault (.color s))) document aliases = _
  cases parse? s <;> rfl

/-- A text is read as a color iff its digits, which are what follows a hash sign, are six and
hexadecimal. Their values are then the halves of the three channels, and the written form of the
color has the same digits in lower case. A plus sign in front counts as a digit, namely zero. All
other texts are refused, and the fault tells the whole text. -/
theorem parse_reads_six_digits (s : String) :
    ((unhashed s).head? ≠ some '+' ∧ digits s = unhashed s ∨
      ∃ r, unhashed s = '+' :: r ∧ digits s = '0' :: r) ∧
    ((∃ c, parse? s = some c) ↔
      (digits s).length = 6 ∧ ∀ d ∈ digits s, ∃ v, DigitOf d v) ∧
    (∀ c, parse? s = some c ↔ List.Forall₂ DigitOf (digits s)
      [c.r.toNat / 16, c.r.toNat % 16, c.g.toNat / 16, c.g.toNat % 16, c.b.toNat / 16,
        c.b.toNat % 16]) ∧
    (∀ c, parse? s = some c ↔
      c.toString = String.ofList ('#' :: (digits s).map Char.toLower)) ∧
    ∀ style tag document aliases,
      Config.colorOf (.scalar s style tag) document aliases =
        match parse? s with
        | some c => .ok (c, aliases)
        | none => .error (.fault (.color s)) := by
  refine ⟨digits_cases s, exists_parse_iff, fun c => ?_, fun c => toString_eq_iff.symm,
    colorOf_scalar s⟩
  rw [← hexValues_toHex, parse_eq_some_iff]

/-- A sign is read as a color's digit, although it is no hexadecimal digit. -/
theorem plus_sign_is_read :
    ¬∀ s : String, (∃ c, parse? s = some c) ↔
      (unhashed s).length = 6 ∧ ∀ d ∈ unhashed s, ∃ v, DigitOf d v := by
  intro h
  have hread : parse? "+12345" = some ⟨0x01, 0x23, 0x45⟩ := by decide +kernel
  obtain ⟨-, hdigits⟩ := (h "+12345").mp ⟨_, hread⟩
  obtain ⟨v, hv⟩ := hdigits '+' (by decide +kernel)
  have hplus : hexValue? '+' = none := rfl
  rw [← hexValue_eq_some_iff, hplus] at hv
  cases hv

end Color

end Arbor
