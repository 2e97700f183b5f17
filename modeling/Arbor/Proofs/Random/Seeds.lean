import Arbor.Proofs.Random.Stream
import Arbor.Proofs.Random.Unit
import Mathlib.Data.UInt

/-! # Seeds that differ in one unit

Hashing loses nothing of one unit: whatever the units around it are, each way to mix one in
can be undone. Seeds that differ in one unit hash to different states, and since neither
steps nor places confuse states, all draws from them differ.
-/

namespace Arbor

section Lists

variable {β : Type} {u v : List β}

theorem existsUnique_getElem?_ne_iff :
    u.length = v.length ∧ (∃! i : Nat, u[i]? ≠ v[i]?) ↔
      ∃ before a b after, a ≠ b ∧ u = before ++ a :: after ∧ v = before ++ b :: after := by
  constructor
  · rintro ⟨hl, i, hi, hu⟩
    have he : ∀ j, j ≠ i → u[j]? = v[j]? := fun j hj => not_not.mp fun hn => hj (hu j hn)
    have hiu : i < u.length := by
      by_contra hge
      exact hi (by rw [List.getElem?_eq_none (by omega), List.getElem?_eq_none (by omega)])
    have hiv : i < v.length := hl ▸ hiu
    have ht : u.take i = v.take i := by
      refine List.ext_getElem? fun j => ?_
      rw [List.getElem?_take, List.getElem?_take]
      split
      · next hj => exact he j hj.ne
      · rfl
    have hd : u.drop (i + 1) = v.drop (i + 1) := by
      refine List.ext_getElem? fun j => ?_
      rw [List.getElem?_drop, List.getElem?_drop]
      exact he _ (by omega)
    refine ⟨u.take i, u[i], v[i], u.drop (i + 1), fun h => hi ?_, ?_, ?_⟩
    · rw [List.getElem?_eq_getElem hiu, List.getElem?_eq_getElem hiv, h]
    · rw [← List.drop_eq_getElem_cons, List.take_append_drop]
    · rw [ht, hd, ← List.drop_eq_getElem_cons, List.take_append_drop]
  · rintro ⟨before, a, b, after, hab, rfl, rfl⟩
    refine ⟨by simp, before.length, by simpa using hab, fun j hj => ?_⟩
    rcases Nat.lt_trichotomy j before.length with hlt | he | hgt
    · exact absurd (by rw [List.getElem?_append_left hlt, List.getElem?_append_left hlt]) hj
    · exact he
    · obtain ⟨k, rfl⟩ : ∃ k, j = before.length + (k + 1) := ⟨j - before.length - 1, by omega⟩
      exact absurd (by simp [List.getElem?_append_right]) hj

end Lists

namespace Xorshift

open RandomSource

variable {s t : String}

def mix (unit acc : UInt32) : UInt32 := acc * 33 ^^^ unit

theorem hash_eq_foldr_mix (seed : String) : hash seed = (Text.units seed).foldr mix 5381 := rfl

theorem mul_thirtyThree_injective : Function.Injective fun x : UInt32 => x * 33 := by
  intro x y h
  have hc := congrArg (· * 1041204193) h
  have hone : (33 : UInt32) * 1041204193 = 1 := by decide
  simpa only [UInt32.mul_assoc, hone, UInt32.mul_one] using hc

theorem mix_injective (unit : UInt32) : Function.Injective (mix unit) := by
  intro x y h
  exact mul_thirtyThree_injective ((UInt32.xor_left_inj unit).mp h)

theorem foldr_mix_injective (units : List UInt32) :
    Function.Injective fun acc => units.foldr mix acc := by
  induction units with
  | nil => exact fun _ _ h => h
  | cons unit units ih => exact (mix_injective unit).comp ih

theorem hash_ne (hl : (Text.units s).length = (Text.units t).length)
    (hd : ∃! i : Nat, (Text.units s)[i]? ≠ (Text.units t)[i]?) : hash s ≠ hash t := by
  obtain ⟨before, a, b, after, hab, hs, ht⟩ := existsUnique_getElem?_ne_iff.mp ⟨hl, hd⟩
  rw [hash_eq_foldr_mix, hash_eq_foldr_mix, hs, ht, List.foldr_append, List.foldr_append,
    List.foldr_cons, List.foldr_cons]
  intro h
  have hm : mix a (after.foldr mix 5381) = mix b (after.foldr mix 5381) :=
    foldr_mix_injective before h
  exact hab ((UInt32.xor_right_inj _).mp hm)

/-- Seeds of one length that differ in one unit have different hashes. If both are accepted,
then draw by draw their generators are in different states and, in exact arithmetic, draw
different values. -/
theorem mistyped_seeds_draw_apart (s t : String)
    (hl : (Text.units s).length = (Text.units t).length)
    (hd : ∃! i : Nat, (Text.units s)[i]? ≠ (Text.units t)[i]?) :
    hash s ≠ hash t ∧
    ∀ g g', ofSeed s = .ok g → ofSeed t = .ok g' → ∀ n,
      (skip Float n g).state ≠ (skip Float n g').state ∧
        (draw (α := ℚ) (skip Float n g)).1 ≠ (draw (α := ℚ) (skip Float n g')).1 := by
  have hne : hash s ≠ hash t := hash_ne hl hd
  refine ⟨hne, fun g g' hg hg' n => ?_⟩
  obtain ⟨-, -, rfl⟩ := ofSeed_eq_ok_iff.mp hg
  obtain ⟨-, -, rfl⟩ := ofSeed_eq_ok_iff.mp hg'
  rw [skip_eq, skip_eq]
  have hn : step^[n] (hash s) ≠ step^[n] (hash t) := iterate_step_ne hne n
  exact ⟨hn, fun h => hn (step_injective (unit_injective h))⟩

/-- Two seeds that differ in the second unit of a surrogate pair. -/
theorem mistyped_seeds_draw_apart_surrogates :
    (Text.units "😀b").length = (Text.units "😁b").length ∧
    (∃! i : Nat, (Text.units "😀b")[i]? ≠ (Text.units "😁b")[i]?) ∧
    ∃ g g', ofSeed "😀b" = .ok g ∧ ofSeed "😁b" = .ok g' ∧
      (draw (α := ℚ) (skip Float 9 g)).1 ≠ (draw (α := ℚ) (skip Float 9 g')).1 := by
  obtain ⟨hl, hd⟩ := existsUnique_getElem?_ne_iff.mpr
    ⟨[0xd83d], 0xde00, 0xde01, [98], by decide,
      show Text.units "😀b" = _ by decide, show Text.units "😁b" = _ by decide +kernel⟩
  have hg : ofSeed "😀b" = .ok ⟨hash "😀b"⟩ := ofSeed_eq_ok_iff.mpr (by decide)
  have hg' : ofSeed "😁b" = .ok ⟨hash "😁b"⟩ := ofSeed_eq_ok_iff.mpr (by decide)
  exact ⟨hl, hd, _, _, hg, hg', ((mistyped_seeds_draw_apart _ _ hl hd).2 _ _ hg hg' 9).2⟩

end Xorshift

end Arbor
