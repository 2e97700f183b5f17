import Arbor.Random.Xorshift
import Mathlib.Algebra.Group.Nat.Defs
import Mathlib.Logic.Function.Iterate

/-! # The step of the register

A step is linear: it carries sums without carries to such sums, so that it is known by what
it does to single bits. It is a permutation because each of its three lines can be undone.
It moves every state but zero because the states of an orbit satisfy a linear recurrence
with an even number of terms.
-/

namespace Arbor

/-- A map of words that carries sums without carries to such sums. -/
def XorLinear (f : UInt32 → UInt32) : Prop := ∀ x y, f (x ^^^ y) = f x ^^^ f y

namespace XorLinear

variable {f g : UInt32 → UInt32}

theorem map_zero (hf : XorLinear f) : f 0 = 0 := by
  have h := hf 0 0
  rwa [UInt32.xor_self, UInt32.xor_self] at h

theorem id : XorLinear id := fun _ _ => rfl

theorem zero : XorLinear fun _ => 0 := fun _ _ => UInt32.xor_self.symm

theorem shiftLeft (k : UInt32) : XorLinear (· <<< k) := fun _ _ => UInt32.shiftLeft_xor

theorem shiftRight (k : UInt32) : XorLinear (· >>> k) := fun _ _ => UInt32.shiftRight_xor

theorem comp (hf : XorLinear f) (hg : XorLinear g) : XorLinear (f ∘ g) := by
  intro x y
  rw [Function.comp_apply, hg, hf]
  rfl

theorem iterate (hf : XorLinear f) (n : Nat) : XorLinear f^[n] := by
  induction n with
  | zero => exact id
  | succ n ih => exact ih.comp hf

theorem xor (hf : XorLinear f) (hg : XorLinear g) : XorLinear fun x => f x ^^^ g x := by
  intro x y
  simp only [hf x y, hg x y]
  ac_rfl

theorem injective (hf : XorLinear f) (h : ∀ x, f x = 0 → x = 0) : Function.Injective f := by
  intro x y hxy
  have hz : f (x ^^^ y) = 0 := by rw [hf, hxy, UInt32.xor_self]
  exact UInt32.xor_eq_zero_iff.mp (h _ hz)

theorem eq_zero_of_bits (hf : XorLinear f) (hb : ∀ i < 32, f (UInt32.ofNat (2 ^ i)) = 0) {n : Nat}
    (hn : n ≤ 32) {x : UInt32} (hx : x.toNat < 2 ^ n) : f x = 0 := by
  induction n generalizing x with
  | zero =>
    obtain rfl : x = 0 := UInt32.toNat_inj.mp (by simpa using hx)
    exact hf.map_zero
  | succ n ih =>
    have ih := @ih (by omega)
    rcases Nat.lt_or_ge x.toNat (2 ^ n) with hlt | hge
    · exact ih hlt
    · have hsize : 2 ^ n < 2 ^ 32 := Nat.pow_lt_pow_right Nat.one_lt_two (by omega)
      have hbit : (UInt32.ofNat (2 ^ n)).toNat = 2 ^ n := UInt32.toNat_ofNat_of_lt' hsize
      -- The highest bit of the word is its only digit from there on.
      have hdigit : x.toNat / 2 ^ n = 1 :=
        Nat.div_eq_of_lt_le (by omega) (by rw [Nat.pow_succ] at hx; omega)
      have hrest : (x ^^^ UInt32.ofNat (2 ^ n)).toNat < 2 ^ n := by
        have hz : (x.toNat ^^^ 2 ^ n) / 2 ^ n = 0 := by
          rw [Nat.xor_div_two_pow, hdigit, Nat.div_self (Nat.two_pow_pos n)]
          rfl
        rw [UInt32.toNat_xor, hbit]
        exact (Nat.div_eq_zero_iff_lt (Nat.two_pow_pos n)).mp hz
      calc f x = f (x ^^^ UInt32.ofNat (2 ^ n) ^^^ UInt32.ofNat (2 ^ n)) := by
            rw [UInt32.xor_assoc, UInt32.xor_self, UInt32.xor_zero]
        _ = f (x ^^^ UInt32.ofNat (2 ^ n)) ^^^ f (UInt32.ofNat (2 ^ n)) := hf _ _
        _ = 0 := by rw [ih hrest, hb n (by omega), UInt32.xor_self]

theorem eq_of_bits (hf : XorLinear f) (hg : XorLinear g)
    (h : ∀ i < 32, f (UInt32.ofNat (2 ^ i)) = g (UInt32.ofNat (2 ^ i))) (x : UInt32) :
    f x = g x := by
  refine UInt32.xor_eq_zero_iff.mp ((hf.xor hg).eq_zero_of_bits (fun i hi => ?_) (Nat.le_refl 32)
    x.toNat_lt)
  rw [h i hi, UInt32.xor_self]

/-- A map that carries all words to zero in the end can be told from its sum with a word. -/
theorem injective_xor (hf : XorLinear f) (n : Nat)
    (h : ∀ i < 32, f^[n] (UInt32.ofNat (2 ^ i)) = 0) : Function.Injective fun x => x ^^^ f x := by
  refine (id.xor hf).injective fun x hx => ?_
  have hfix : f x = x := (UInt32.xor_eq_zero_iff.mp hx).symm
  calc x = f^[n] x := (Function.iterate_fixed hfix n).symm
    _ = 0 := (hf.iterate n).eq_of_bits zero h x

end XorLinear

namespace Xorshift

/-! ## A step can be undone -/

theorem step_eq_comp :
    step = (fun x : UInt32 => x ^^^ x <<< 4) ∘ (fun x : UInt32 => x ^^^ x >>> 3) ∘
      fun x : UInt32 => x ^^^ x <<< 21 := rfl

theorem step_injective : Function.Injective step := by
  rw [step_eq_comp]
  -- Eight shifts by 4, eleven by 3 or two by 21 leave no bit of a word of 32.
  exact ((XorLinear.shiftLeft 4).injective_xor 8 (by decide)).comp
    (((XorLinear.shiftRight 3).injective_xor 11 (by decide)).comp
      ((XorLinear.shiftLeft 21).injective_xor 2 (by decide)))

/-! ## A step moves every state but zero -/

theorem xorLinear_step : XorLinear step := by
  rw [step_eq_comp]
  exact (XorLinear.id.xor (.shiftLeft 4)).comp
    ((XorLinear.id.xor (.shiftRight 3)).comp (XorLinear.id.xor (.shiftLeft 21)))

@[simp] theorem step_zero : step 0 = 0 := xorLinear_step.map_zero

/-- The sum without carries of the states after some numbers of steps. -/
def sumAfter (ks : List Nat) (x : UInt32) : UInt32 := ks.foldr (fun k sum => step^[k] x ^^^ sum) 0

theorem xorLinear_sumAfter (ks : List Nat) : XorLinear (sumAfter ks) := by
  induction ks with
  | nil => exact .zero
  | cons k ks ih => exact (xorLinear_step.iterate k).xor ih

def taps : List Nat := [1, 4, 5, 10, 11, 13, 15, 17, 19, 20, 21, 24, 25, 32]

/-- Every state is a sum of fourteen of the states that follow it. -/
theorem sumAfter_taps (x : UInt32) : sumAfter taps x = x :=
  (xorLinear_sumAfter taps).eq_of_bits .id (by decide) x

theorem step_eq_self_iff {x : UInt32} : step x = x ↔ x = 0 := by
  constructor
  · intro h
    have hk : ∀ k, step^[k] x = x := Function.iterate_fixed h
    -- The terms cancel each other, for there is an even number of them.
    have hz : sumAfter taps x = 0 := by
      simp only [sumAfter, taps, hk, List.foldr_cons, List.foldr_nil, UInt32.xor_zero,
        UInt32.xor_self]
    rw [← sumAfter_taps x, hz]
  · rintro rfl
    exact step_zero

end Xorshift

end Arbor
