import Arbor.Json.Parser
import Arbor.Json.Printer
import Arbor.Proofs.Binary64.Parts

/-! # Printed JSON numbers

A printed number is made of the parts of a numeral, and the reader takes exactly these parts
off it, wherever the number is followed by the end of a value.
-/

namespace Arbor.Json

/-- What may stand behind a value: its list or object goes on or closes, or nothing. -/
def Ends (r : List Char) : Prop := ∀ c ∈ r.head?, c = ',' ∨ c = ']' ∨ c = '\x7d'

theorem ends_nil : Ends [] := by simp [Ends]

theorem ends_comma (r : List Char) : Ends (',' :: r) := by simp [Ends]

theorem ends_bracket (r : List Char) : Ends (']' :: r) := by simp [Ends]

theorem ends_brace (r : List Char) : Ends ('\x7d' :: r) := by simp [Ends]

theorem spanDigits_append {ds r : List Char} (hd : ∀ c ∈ ds, c.isDigit = true)
    (hr : ∀ c ∈ r.head?, c.isDigit = false) : spanDigits (ds ++ r) = (ds, r) := by
  rw [spanDigits, List.takeWhile_append_of_pos hd, List.dropWhile_append_of_pos hd]
  cases r with
  | nil => simp
  | cons c r => simp [hr c rfl]

namespace Numeral

/-- The parts hold digits; the whole part and a power have one. -/
structure Digital (n : Numeral) : Prop where
  whole_ne_nil : n.whole ≠ []
  whole : ∀ c ∈ n.whole, c.isDigit = true
  fraction : ∀ c ∈ n.fraction, c.isDigit = true
  power : ∀ p ∈ n.power, p.2 ≠ [] ∧ ∀ c ∈ p.2, c.isDigit = true

def fractionText (n : Numeral) : List Char := if n.fraction = [] then [] else '.' :: n.fraction

def powerText (n : Numeral) : List Char :=
  match n.power with
  | none => []
  | some (down, ds) => 'e' :: (if down then '-' else '+') :: ds

def text (n : Numeral) : List Char :=
  (if n.negative then ['-'] else []) ++ (n.whole ++ (n.fractionText ++ n.powerText))

/-- Whether the whole part begins with a zero that it does not need. -/
def padded (n : Numeral) : Prop := n.whole.head? = some '0' ∧ 1 < n.whole.length

instance (n : Numeral) : Decidable n.padded := inferInstanceAs (Decidable (_ ∧ _))

variable {n : Numeral} {r : List Char}

theorem power_powerText (h : n.Digital) (hr : Ends r) :
    power? (n.powerText ++ r) = some (n.power, r) := by
  unfold powerText
  cases hp : n.power with
  | none =>
    cases r with
    | nil => rfl
    | cons c r =>
      have hc : c ≠ 'e' ∧ c ≠ 'E' := by
        rcases hr c rfl with rfl | rfl | rfl <;> decide
      simp [power?, hc.1, hc.2]
  | some p =>
    obtain ⟨down, ds⟩ := p
    obtain ⟨hne, hd⟩ := h.power (down, ds) hp
    have hspan : spanDigits (ds ++ r) = (ds, r) := by
      refine spanDigits_append hd fun c hc => ?_
      rcases hr c hc with rfl | rfl | rfl <;> decide
    cases down <;> simp [power?, Decimal.splitSign, hspan, hne]

theorem head_powerText (hr : Ends r) :
    ∀ c ∈ (n.powerText ++ r).head?, c ≠ '.' ∧ c.isDigit = false := by
  unfold powerText
  cases n.power with
  | none =>
    intro c hc
    rcases hr c hc with rfl | rfl | rfl <;> decide
  | some p =>
    intro c hc
    cases Option.mem_some.mp hc
    decide

theorem fraction_fractionText (h : n.Digital) (hr : Ends r) :
    fraction? (n.fractionText ++ (n.powerText ++ r)) = some (n.fraction, n.powerText ++ r) := by
  have hhead := head_powerText (n := n) hr
  unfold fractionText
  by_cases hf : n.fraction = []
  · rw [if_pos hf, hf, List.nil_append]
    cases hs : n.powerText ++ r with
    | nil => rfl
    | cons c s =>
      rw [hs] at hhead
      have hc := (hhead c rfl).1
      simp [fraction?, hc]
  · have hspan := spanDigits_append h.fraction (fun c hc => (hhead c hc).2)
    rw [if_neg hf, List.cons_append]
    simp only [fraction?, hspan, if_neg hf]

theorem head_fractionText (hr : Ends r) :
    ∀ c ∈ (n.fractionText ++ (n.powerText ++ r)).head?, c.isDigit = false := by
  unfold fractionText
  split
  · exact fun c hc => (head_powerText hr c hc).2
  · intro c hc
    cases Option.mem_some.mp hc
    rfl

/-- The reader takes a numeral off its text, unless it has zeros that it does not need. -/
theorem numeral_text (h : n.Digital) (hr : Ends r) :
    numeral? (n.text ++ r) = if n.padded then none else some (n, r) := by
  have hspan := spanDigits_append h.whole (head_fractionText (n := n) hr)
  obtain ⟨d, ds, hw⟩ := List.exists_cons_of_ne_nil h.whole_ne_nil
  have hd : d ≠ '-' := by
    rintro rfl
    exact absurd (h.whole '-' (hw ▸ List.mem_cons_self)) (by decide)
  have hfraction := fraction_fractionText h hr
  have hpower := power_powerText h hr
  rw [hw, List.cons_append] at hspan
  cases hn : n.negative
  · have hn' : (⟨false, d :: ds, n.fraction, n.power⟩ : Numeral) = n := by rw [← hn, ← hw]
    simp [numeral?, text, hn, hw, hd, hspan, hfraction, hpower, padded, hn']
  · have hn' : (⟨true, d :: ds, n.fraction, n.power⟩ : Numeral) = n := by rw [← hn, ← hw]
    simp [numeral?, text, hn, hw, hspan, hfraction, hpower, padded, hn']

/-! ## Printed numbers are texts of numerals -/

theorem isDigit_of_mem_digits {c : Char} {m : Nat} (h : c ∈ Nat.toDigits 10 m) :
    c.isDigit = true := Nat.isDigit_of_mem_toDigits (by decide) (by decide) h

theorem exists_text_writeInt (m : Int) : ∃ n : Numeral, n.Digital ∧ writeInt m = n.text := by
  refine ⟨⟨decide (m < 0), Nat.toDigits 10 m.natAbs, [], none⟩,
    ⟨Nat.toDigits_ne_nil, fun _ => isDigit_of_mem_digits, by simp, by simp⟩, ?_⟩
  by_cases hm : m < 0 <;> simp [writeInt, text, fractionText, powerText, hm]

theorem isDigit_of_mem_replicate {c : Char} {k : Nat} (h : c ∈ List.replicate k '0') :
    c.isDigit = true := by
  rw [(List.mem_replicate.mp h).2]
  rfl

def IsText (cs : List Char) : Prop := ∃ n : Numeral, n.Digital ∧ n.negative = false ∧ n.text = cs

theorem IsText.exists_signed {cs : List Char} (h : IsText cs) (negative : Bool) :
    ∃ n : Numeral, n.Digital ∧ (if negative then '-' :: cs else cs) = n.text := by
  obtain ⟨n, hn, hf, rfl⟩ := h
  refine ⟨{ n with negative }, ⟨hn.1, hn.2, hn.3, hn.4⟩, ?_⟩
  cases negative <;> simp [text, hf, fractionText, powerText]

theorem isText_withoutExponent (d : Decimal.Scientific) :
    IsText (Decimal.withoutExponent true d) := by
  have hds : ∀ c ∈ Decimal.digits d.digits, c.isDigit = true := fun _ => isDigit_of_mem_digits
  have hne : Decimal.digits d.digits ≠ [] := Nat.toDigits_ne_nil
  by_cases he : 0 ≤ d.exponent
  · refine ⟨⟨false, Decimal.digits d.digits ++ List.replicate d.exponent.toNat '0', ['0'], none⟩,
      ⟨by simp [hne], fun c hc => ?_, by simp, by simp⟩, rfl, ?_⟩
    · exact (List.mem_append.mp hc).elim (hds c) isDigit_of_mem_replicate
    · simp [text, fractionText, powerText, Decimal.withoutExponent, he]
  · let places := (-d.exponent).toNat
    let padding := List.replicate (places + 1 - (Decimal.digits d.digits).length) '0'
    let padded := padding ++ Decimal.digits d.digits
    have hpadded : ∀ c ∈ padded, c.isDigit = true := fun c hc =>
      (List.mem_append.mp hc).elim isDigit_of_mem_replicate (hds c)
    have hlen : places < padded.length := by
      simp only [padded, padding, List.length_append, List.length_replicate]
      omega
    have hplaces : 0 < places := by
      simp only [places]
      omega
    have hfraction : padded.drop (padded.length - places) ≠ [] := by
      simp only [ne_eq, List.drop_eq_nil_iff]
      omega
    refine ⟨⟨false, padded.take (padded.length - places), padded.drop (padded.length - places),
      none⟩, ⟨?_, fun c hc => hpadded c (List.mem_of_mem_take hc),
        fun c hc => hpadded c (List.mem_of_mem_drop hc), by simp⟩, rfl, ?_⟩
    · have hp : padded ≠ [] := List.ne_nil_of_length_pos (by omega)
      simp only [ne_eq, List.take_eq_nil_iff, hp, or_false]
      omega
    · simp only [text, fractionText, powerText, if_neg hfraction, Decimal.withoutExponent,
        if_neg he, List.append_nil]
      rfl

theorem isText_withExponent (d : Decimal.Scientific) : IsText (Decimal.withExponent d) := by
  have hds : ∀ c ∈ Decimal.digits d.digits, c.isDigit = true := fun _ => isDigit_of_mem_digits
  obtain ⟨c, rest, hc⟩ : ∃ c rest, Decimal.digits d.digits = c :: rest :=
    List.exists_cons_of_ne_nil Nat.toDigits_ne_nil
  let e := d.exponent + ((Decimal.digits d.digits).length - 1)
  rw [hc] at hds
  refine ⟨⟨false, [c], rest, some (decide (e < 0), Decimal.digits e.natAbs)⟩,
    ⟨by simp, by simpa using hds c List.mem_cons_self,
      fun x hx => hds x (List.mem_cons_of_mem c hx), ?_⟩, rfl, ?_⟩
  · intro p hp
    cases Option.mem_some.mp hp
    exact ⟨Nat.toDigits_ne_nil, fun _ => isDigit_of_mem_digits⟩
  · cases rest <;> simp [text, fractionText, powerText, Decimal.withExponent, hc, e]

theorem exists_text_writeReal {x : Float} (h : x.isFinite = true) :
    ∃ n : Numeral, n.Digital ∧ writeReal x = n.text := by
  obtain ⟨d, hd⟩ := Binary64.isFinite_iff.mp h
  rw [writeReal, if_pos h, Decimal.Style.write, hd]
  simp only [String.toList_ofList, numberStyle]
  apply IsText.exists_signed
  split
  · exact isText_withoutExponent _
  · exact iteInduction (fun _ => isText_withoutExponent _) (fun _ => isText_withExponent _)

end Numeral

end Arbor.Json
