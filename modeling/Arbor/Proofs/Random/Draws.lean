import Arbor.Random.Xorshift
import Mathlib.Logic.Function.Iterate

/-! # Counting draws

What has been drawn from a source is told by the number of draws: the source after them,
and a source that counts them beside an uncounted one.
-/

namespace Arbor

namespace RandomSource

variable (α : Type) {ρ : Type} [RandomSource ρ α]

def skip (n : Nat) (source : ρ) : ρ := (fun s => (draw (α := α) s).2)^[n] source

variable {α}

@[simp] theorem skip_zero (source : ρ) : skip α 0 source = source := rfl

theorem skip_one (source : ρ) : skip α 1 source = (draw (α := α) source).2 := rfl

theorem skip_add (m n : Nat) (source : ρ) : skip α (m + n) source = skip α n (skip α m source) := by
  rw [Nat.add_comm, skip, Function.iterate_add_apply]
  rfl

end RandomSource

open RandomSource

/-- A source with the number of draws that were taken from it. -/
structure Counted (ρ : Type) where
  source : ρ
  draws : Nat

namespace Counted

variable {α ρ : Type} [RandomSource ρ α]

instance : RandomSource (Counted ρ) α where
  draw s := ((draw s.source).1, ⟨(draw (α := α) s.source).2, s.draws + 1⟩)

theorem draw_fst (s : Counted ρ) : (draw (α := α) s).1 = (draw s.source).1 := rfl

theorem skip_eq (n : Nat) (s : Counted ρ) : skip α n s = ⟨skip α n s.source, s.draws + n⟩ := by
  induction n with
  | zero => rfl
  | succ n ih => rw [skip_add, ih, skip_one, skip_add n 1 s.source, skip_one]; rfl

@[simp] theorem source_skip (n : Nat) (s : Counted ρ) :
    (skip α n s).source = skip α n s.source := by
  rw [skip_eq]

end Counted

namespace Xorshift

theorem draw_eq {α : Type} [Scalar α] (g : Xorshift) :
    draw (α := α) g = (unit (step g.state), ⟨step g.state⟩) := rfl

theorem skip_eq {α : Type} [Scalar α] (n : Nat) (g : Xorshift) :
    skip α n g = ⟨step^[n] g.state⟩ := by
  induction n with
  | zero => rfl
  | succ n ih =>
    rw [skip_add, ih, skip_one, Function.iterate_succ_apply']
    rfl

theorem ofSeed_eq_ok_iff {seed : String} {g : Xorshift} :
    ofSeed seed = .ok g ↔ seed.isEmpty = false ∧ hash seed ≠ 0 ∧ g = ⟨hash seed⟩ := by
  unfold ofSeed
  cases seed.isEmpty with
  | true => simp
  | false =>
    by_cases h : hash seed = 0
    · simp [h]
    · simp [h, eq_comm]

end Xorshift

end Arbor
