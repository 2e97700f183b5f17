import Arbor.Json.Parser
import Arbor.Json.Printer
import Arbor.Proofs.Text.Hex

/-! # Printed JSON strings read back

A character inside a printed string stands for itself or is written as an escape that reads
back. So the reader finds the end of a printed string, and the characters before it.
-/

namespace Arbor.Json

theorem hex4_hexFixed (n : Nat) (r : List Char) :
    hex4? (Text.hexFixed 4 n ++ r) = some (n % 16 ^ 4, r) := by
  have hd (k : Nat) := Text.hexValue_hexDigit (k % 16) (Nat.mod_lt k (by decide))
  simp only [Text.hexFixed, List.nil_append, List.cons_append, hex4?, hd, Option.bind_eq_bind,
    Option.bind_some, Option.some.injEq, Prod.mk.injEq, and_true]
  omega

theorem escape_cases (c : Char) :
    (escape c = [c] ∧ c ≠ '"' ∧ c ≠ '\\' ∧ ¬c.toNat < 0x20) ∨
      ∃ code, escape c = '\\' :: code ∧ ∀ r, escape? (code ++ r) = some (c, r) := by
  unfold escape
  split
  case h_8 h₁ h₂ _ _ _ _ _ =>
    by_cases hc : c.toNat < 0x20
    · refine Or.inr ⟨'u' :: Text.hexFixed 4 c.toNat, if_pos hc, fun r => ?_⟩
      have hn : c.toNat % 16 ^ 4 = c.toNat := Nat.mod_eq_of_lt (by omega)
      have hlow : ¬(0xd800 ≤ c.toNat ∧ c.toNat < 0xdc00) := by omega
      have hhigh : ¬(0xdc00 ≤ c.toNat ∧ c.toNat < 0xe000) := by omega
      simp only [List.cons_append, escape?, unicode?, hex4_hexFixed, hn, Option.bind_eq_bind,
        Option.bind_some, if_neg hlow, if_neg hhigh, Char.ofNat_toNat]
    · exact Or.inl ⟨if_neg hc, h₁, h₂, hc⟩
  all_goals exact Or.inr ⟨_, rfl, fun r => rfl⟩

theorem length_escape_pos (c : Char) : 0 < (escape c).length := by
  rcases escape_cases c with ⟨h, _⟩ | ⟨code, h, _⟩ <;> simp [h]

theorem text_flatMap_escape (cs r : List Char) (fuel : Nat)
    (h : (cs.flatMap escape).length < fuel) :
    text? fuel (cs.flatMap escape ++ '"' :: r) = some (cs, r) := by
  induction cs generalizing fuel with
  | nil =>
    obtain ⟨fuel, rfl⟩ := Nat.exists_eq_add_one_of_ne_zero (Nat.ne_of_gt h)
    simp [text?]
  | cons c cs ih =>
    obtain ⟨fuel, rfl⟩ := Nat.exists_eq_add_one_of_ne_zero (Nat.ne_zero_of_lt h)
    have hpos := length_escape_pos c
    rw [List.flatMap_cons, List.length_append] at h
    have htail := ih fuel (by omega)
    rcases escape_cases c with ⟨hc, hq, hb, hlow⟩ | ⟨code, hc, hread⟩
    · simp [hc, text?, hq, hb, hlow, htail]
    · simp [hc, text?, hread, htail]

theorem text_writeText (s : String) (r : List Char) :
    writeText s ++ r = '"' :: (s.toList.flatMap escape ++ '"' :: r) := by
  simp [writeText]

theorem text_of_writeText (s : String) (r : List Char) :
    ∃ t, writeText s ++ r = '"' :: t ∧ text? (t.length + 1) t = some (s.toList, r) := by
  refine ⟨s.toList.flatMap escape ++ '"' :: r, text_writeText s r, ?_⟩
  exact text_flatMap_escape s.toList r _ (by rw [List.length_append]; omega)

end Arbor.Json
