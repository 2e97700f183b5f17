import Arbor.Proofs.Random.Draws
import Arbor.Proofs.Random.Step
import Mathlib.Data.FinEnum
import Mathlib.Dynamics.PeriodicPts.Lemmas

/-! # The stream of a generator

The states of a generator are the orbit of its first one. Since a step is a permutation that
moves every state but zero, an orbit comes back to its beginning, never stands still, and
two orbits that are in step do not meet.
-/

namespace Arbor.Xorshift

open RandomSource

variable {x y : UInt32}

theorem iterate_step_ne (h : x ≠ y) (n : Nat) : step^[n] x ≠ step^[n] y :=
  (step_injective.iterate n).ne h

theorem iterate_step_ne_zero (hx : x ≠ 0) (n : Nat) : step^[n] x ≠ 0 := by
  have h := iterate_step_ne hx n
  rwa [Function.iterate_fixed step_zero] at h

theorem iterate_step_ne_succ (hx : x ≠ 0) (n : Nat) : step^[n] x ≠ step^[n + 1] x := by
  rw [Function.iterate_succ_apply']
  exact fun h => iterate_step_ne_zero hx n (step_eq_self_iff.mp h.symm)

theorem exists_iterate_step_eq (x : UInt32) : ∃ m > 0, step^[m] x = x :=
  step_injective.mem_periodicPts x

/-- The generator of an accepted seed is never in the state zero, never stands still and comes
back to where it began. Generators that differ after as many draws differ after any other
number of draws as well. -/
theorem stream_never_degenerates (α : Type) [Scalar α] :
    (∀ seed g, ofSeed seed = .ok g →
      (∀ n, (skip α n g).state ≠ 0 ∧ (skip α n g).state ≠ (skip α (n + 1) g).state) ∧
        ∃ m > 0, skip α m g = g) ∧
    ∀ (g g' : Xorshift) (k : Nat), (skip α k g).state ≠ (skip α k g').state →
      ∀ n, (skip α n g).state ≠ (skip α n g').state := by
  simp only [skip_eq]
  constructor
  · intro seed g h
    obtain ⟨-, hz, rfl⟩ := ofSeed_eq_ok_iff.mp h
    obtain ⟨m, hm, hp⟩ := exists_iterate_step_eq (hash seed)
    exact ⟨fun n => ⟨iterate_step_ne_zero hz n, iterate_step_ne_succ hz n⟩, m, hm,
      congrArg Xorshift.mk hp⟩
  · intro g g' k h n
    have hne : g.state ≠ g'.state := fun he => h (congrArg step^[k] he)
    exact iterate_step_ne hne n

theorem stream_never_degenerates_default :
    ofSeed "default" = .ok default ∧ (∃ m > 0, skip Float m default = default) ∧
    (skip Float 1 default).state ≠ (skip Float 1 (⟨hash "Default"⟩ : Xorshift)).state ∧
    (skip Float 100 default).state ≠ (skip Float 100 (⟨hash "Default"⟩ : Xorshift)).state := by
  have hs : ofSeed "default" = .ok default := rfl
  have hd : (skip Float 1 default).state ≠ (skip Float 1 (⟨hash "Default"⟩ : Xorshift)).state := by
    decide
  exact ⟨hs, ((stream_never_degenerates Float).1 "default" default hs).2, hd,
    (stream_never_degenerates Float).2 default ⟨hash "Default"⟩ 1 hd 100⟩

end Arbor.Xorshift
