import Arbor.Proofs.Exact
import Arbor.Random.Xorshift
import Mathlib.Tactic.Linarith
import Mathlib.Tactic.NormNum

/-! # Places in the unit interval

In exact arithmetic the place of a state grows with the state. Only the top state is held
back, and even so it is above all others.
-/

namespace Arbor.Xorshift

variable {x y : UInt32}

theorem unit_rat (x : UInt32) :
    (unit x : ℚ) = min ((x.toNat : ℚ) / 4294967295) (1 - 1 / 2 ^ 52) := by
  rw [unit, Scalar.min_exact]
  norm_num [Scalar.ofInt]

theorem unit_lt_unit (h : x.toNat < y.toNat) : (unit x : ℚ) < unit y := by
  have hy := y.toNat_lt
  have hx : (x.toNat : ℚ) ≤ 4294967294 := by exact_mod_cast show x.toNat ≤ 4294967294 by omega
  have hxy : (x.toNat : ℚ) < y.toNat := by exact_mod_cast h
  rw [unit_rat, unit_rat]
  refine (min_le_left _ _).trans_lt (lt_min ?_ ?_)
  · exact div_lt_div_of_pos_right hxy (by norm_num)
  · rw [div_lt_iff₀ (by norm_num)]
    linarith

theorem unit_injective : Function.Injective (unit : UInt32 → ℚ) := by
  intro x y h
  rcases Nat.lt_trichotomy x.toNat y.toNat with hlt | he | hgt
  · exact absurd h (unit_lt_unit hlt).ne
  · exact UInt32.toNat_inj.mp he
  · exact absurd h (unit_lt_unit hgt).ne'

end Arbor.Xorshift
