import Mathlib
import Arbor.Proofs.Random.Count
import Arbor.Proofs.Random.Draws

/-! # Integer draws

In exact arithmetic an integer is drawn from its cell of the unit interval. The cells are equally
wide, so that each of them holds as many places of states as the others, up to the rounding at
its ends, the missing first place and the top place, which is held back.
-/

namespace Arbor.Xorshift

open RandomSource

theorem draw_mem {g : Xorshift} (hg : g.state ≠ 0) :
    0 < (draw (α := ℚ) g).1 ∧ (draw (α := ℚ) g).1 < 1 := by
  have hstep : step g.state ≠ 0 := fun h => hg (step_injective (h.trans step_zero.symm))
  have hpos : 0 < (step g.state).toNat :=
    Nat.pos_of_ne_zero fun h => hstep (UInt32.toNat_inj.mp h)
  have hfirst := unit_lt_unit (x := 0) hpos
  rw [draw_eq]
  exact ⟨(unit_mem 0).1.trans_lt hfirst, (unit_mem _).2⟩

section Integers

variable {low high j : ℤ}

theorem drawInt_fst (low high : ℤ) (g : Xorshift) :
    (drawInt ℚ low high g).1 = ⌊unit (step g.state) * ((high - low : ℤ) : ℚ)⌋ + low := rfl

theorem drawInt_eq_iff (h : low < high) (j : ℤ) (g : Xorshift) :
    (drawInt ℚ low high g).1 = j ↔
      ((j - low : ℤ) : ℚ) / (high - low : ℤ) ≤ unit (step g.state) ∧
        unit (step g.state) < ((j - low + 1 : ℤ) : ℚ) / (high - low : ℤ) := by
  have hspan : (0 : ℚ) < (high - low : ℤ) := by exact_mod_cast sub_pos.mpr h
  rw [drawInt_fst, ← eq_sub_iff_add_eq, Int.floor_eq_iff, div_le_iff₀ hspan, lt_div_iff₀ hspan,
    Int.cast_add, Int.cast_one]

theorem drawInt_mem (h : low < high) (g : Xorshift) :
    low ≤ (drawInt ℚ low high g).1 ∧ (drawInt ℚ low high g).1 < high := by
  have hspan : (0 : ℚ) < (high - low : ℤ) := by exact_mod_cast sub_pos.mpr h
  obtain ⟨hu0, hu1⟩ := unit_mem (step g.state)
  have hfloor : 0 ≤ ⌊unit (step g.state) * ((high - low : ℤ) : ℚ)⌋ :=
    Int.floor_nonneg.mpr (mul_nonneg hu0 hspan.le)
  have hbelow : ⌊unit (step g.state) * ((high - low : ℤ) : ℚ)⌋ < high - low :=
    Int.floor_lt.mpr (mul_lt_of_lt_one_left hspan hu1)
  rw [drawInt_fst]
  omega

end Integers

/-! ## Cells of equal width -/

section Cells

variable {n k : ℕ}

theorem share_lt_succ (n : ℕ) : (period : ℚ) / n < (period / n : ℕ) + 1 := by
  rw [← Nat.floor_div_eq_div (K := ℚ)]
  exact Nat.lt_floor_add_one _

/-- The grid from zero on has a whole share of its places in each of `n` cells, or one more. -/
theorem ceil_sub_ceil_mem (n k : ℕ) :
    ⌈(k : ℚ) / n * period⌉₊ + period / n ≤ ⌈((k + 1 : ℕ) : ℚ) / n * period⌉₊ ∧
      ⌈((k + 1 : ℕ) : ℚ) / n * period⌉₊ ≤ ⌈(k : ℚ) / n * period⌉₊ + period / n + 1 := by
  have hwidth : ((k + 1 : ℕ) : ℚ) / n * period = k / n * period + period / n := by
    push_cast
    ring
  have hlow : ((period / n : ℕ) : ℚ) ≤ period / n := Nat.cast_div_le
  have hhigh := share_lt_succ n
  have hle := Nat.le_ceil ((k : ℚ) / n * period)
  have hlt := Nat.ceil_lt_add_one (a := (k : ℚ) / n * period) (by positivity)
  have hle' := Nat.le_ceil (((k + 1 : ℕ) : ℚ) / n * period)
  have hlt' := Nat.ceil_lt_add_one (a := ((k + 1 : ℕ) : ℚ) / n * period) (by positivity)
  rw [hwidth] at hle' hlt' ⊢
  constructor
  · have hstep : ((⌈(k : ℚ) / n * period⌉₊ + period / n : ℕ) : ℚ) <
        (⌈(k : ℚ) / n * period + period / n⌉₊ + 1 : ℕ) := by
      push_cast
      linarith
    have hnat := Nat.cast_lt.mp hstep
    omega
  · have hstep : ((⌈(k : ℚ) / n * period + period / n⌉₊ : ℕ) : ℚ) <
        (⌈(k : ℚ) / n * period⌉₊ + period / n + 2 : ℕ) := by
      push_cast
      linarith
    have hnat := Nat.cast_lt.mp hstep
    omega

/-- The last cell has no more than its share of the grid. -/
theorem ceil_sub_ceil_le_of_last (hn : 0 < n) (hk : k + 1 = n) :
    ⌈((k + 1 : ℕ) : ℚ) / n * period⌉₊ ≤ ⌈(k : ℚ) / n * period⌉₊ + period / n := by
  have hn' : (0 : ℚ) < n := by exact_mod_cast hn
  have hend : ((k + 1 : ℕ) : ℚ) / n * period = period := by
    rw [hk, div_self hn'.ne', one_mul]
  have hstart : (k : ℚ) / n * period = period - period / n := by
    have hcast : (k : ℚ) = n - 1 := by rw [← hk]; push_cast; ring
    rw [hcast]
    field_simp
  have hhigh := share_lt_succ n
  have hle := Nat.le_ceil ((k : ℚ) / n * period)
  rw [hend, Nat.ceil_natCast, hstart]
  rw [hstart] at hle
  have hlt : (period : ℚ) < (⌈(period : ℚ) - period / n⌉₊ + period / n + 1 : ℕ) := by
    push_cast
    linarith
  exact Nat.lt_succ_iff.mp (Nat.cast_lt.mp hlt)

theorem le_topPlace_of_not_last (hn : 0 < n) (hle : n ≤ period) (hk : k + 1 < n) :
    ((k + 1 : ℕ) : ℚ) / n ≤ topPlace := by
  have hn' : (0 : ℚ) < n := by exact_mod_cast hn
  have hsmall : (n : ℚ) ≤ 2 ^ 52 := by exact_mod_cast hle.trans (by decide)
  have hcast : ((k + 1 : ℕ) : ℚ) ≤ n - 1 := by
    rw [le_sub_iff_add_le]
    exact_mod_cast hk
  rw [topPlace, div_le_iff₀ hn', sub_mul, one_mul]
  have hshare : 1 / 2 ^ 52 * (n : ℚ) ≤ 1 := by
    rw [one_div, inv_mul_le_iff₀ (by positivity), mul_one]
    exact hsmall
  linarith

theorem ncard_cell_mem (hn : 0 < n) (hle : n ≤ period) (hk : k < n) :
    let count := {x : UInt32 | x ≠ 0 ∧ (k : ℚ) / n ≤ unit (step x) ∧
      unit (step x) < ((k + 1 : ℕ) : ℚ) / n}.ncard
    period / n ≤ count + 1 ∧ count ≤ period / n + 1 := by
  intro count
  have hb : ((k + 1 : ℕ) : ℚ) / n ≤ 1 := by
    rw [div_le_one (by exact_mod_cast hn)]
    exact_mod_cast hk
  have hcount := ncard_cell (a := (k : ℚ) / n) hb
  obtain ⟨hlow, hhigh⟩ := ceil_sub_ceil_mem n k
  have hshare := Nat.zero_le (period / n)
  constructor
  · have hzero : (if (k : ℚ) / n ≤ 0 ∧ (0 : ℚ) < ((k + 1 : ℕ) : ℚ) / n then 1 else 0) ≤ 1 := by
      split <;> omega
    omega
  · rcases (Nat.succ_le_iff.mpr hk).lt_or_eq with hk | hk
    · have htop : ¬((k : ℚ) / n ≤ topPlace ∧ topPlace < ((k + 1 : ℕ) : ℚ) / n) :=
        fun h => (le_topPlace_of_not_last hn hle hk).not_gt h.2
      rw [if_neg htop] at hcount
      omega
    · have hlast := ceil_sub_ceil_le_of_last hn hk
      have htop : (if (k : ℚ) / n ≤ topPlace ∧ topPlace < ((k + 1 : ℕ) : ℚ) / n then 1 else 0)
          ≤ 1 := by
        split <;> omega
      omega

end Cells

theorem ncard_drawInt {low high j : ℤ} (h : low < high) (hspan : high - low ≤ period)
    (hlow : low ≤ j) (hhigh : j < high) :
    let count := {g : Xorshift | g.state ≠ 0 ∧ (drawInt ℚ low high g).1 = j}.ncard
    (period / (high - low) : ℤ) ≤ count + 1 ∧ (count : ℤ) ≤ period / (high - low) + 1 := by
  obtain ⟨n, hn⟩ := Int.eq_ofNat_of_zero_le (sub_nonneg.mpr h.le)
  obtain ⟨k, hk⟩ := Int.eq_ofNat_of_zero_le (sub_nonneg.mpr hlow)
  have hcell := ncard_cell_mem (n := n) (k := k) (by omega) (by omega) (by omega)
  have hset : {g : Xorshift | g.state ≠ 0 ∧ (drawInt ℚ low high g).1 = j}.ncard =
      {x : UInt32 | x ≠ 0 ∧ (k : ℚ) / n ≤ unit (step x) ∧
        unit (step x) < ((k + 1 : ℕ) : ℚ) / n}.ncard := by
    rw [← ncard_generators]
    simp only [drawInt_eq_iff h, hn, hk]
    push_cast
    rfl
  intro count
  rw [hn, show count = _ from hset]
  exact_mod_cast hcell

/-- In exact arithmetic a generator draws strictly between zero and one, the more the greater its
next state is. An integer draw is one of its range. And no integer of a range is drawn by more or
fewer states than its even share, rounded down, but for one. -/
theorem integers_are_drawn_evenly :
    (∀ g : Xorshift, g.state ≠ 0 → 0 < (draw (α := ℚ) g).1 ∧ (draw (α := ℚ) g).1 < 1) ∧
    (∀ g g' : Xorshift, (draw (α := ℚ) g).2.state < (draw (α := ℚ) g').2.state →
      (draw (α := ℚ) g).1 < (draw (α := ℚ) g').1) ∧
    ∀ low high : ℤ, low < high →
      (∀ g : Xorshift, low ≤ (drawInt ℚ low high g).1 ∧ (drawInt ℚ low high g).1 < high) ∧
      (high - low ≤ 4294967295 → ∀ j, low ≤ j → j < high →
        let share : ℤ := 4294967295 / (high - low)
        let count := {g : Xorshift | g.state ≠ 0 ∧ (drawInt ℚ low high g).1 = j}.ncard
        share - 1 ≤ count ∧ count ≤ share + 1) := by
  refine ⟨fun g hg => draw_mem hg, fun g g' h => ?_,
    fun low high h => ⟨fun g => drawInt_mem h g, fun hspan j hlow hhigh => ?_⟩⟩
  · rw [draw_eq, draw_eq] at h ⊢
    exact unit_lt_unit h
  · intro share count
    obtain ⟨hleast, hmost⟩ := ncard_drawInt h hspan hlow hhigh
    exact ⟨sub_le_iff_le_add.mpr hleast, hmost⟩

theorem integers_are_drawn_evenly_die :
    (default : Xorshift).state ≠ 0 ∧ (1 : ℤ) < 7 ∧ 7 - 1 ≤ (4294967295 : ℤ) ∧
      (drawInt ℚ 1 7 default).1 ∈ Set.Ico 1 7 ∧
      let count := {g : Xorshift | g.state ≠ 0 ∧ (drawInt ℚ 1 7 g).1 = 6}.ncard
      (715827881 : ℤ) ≤ count ∧ (count : ℤ) ≤ 715827883 := by
  obtain ⟨hrange, heven⟩ := integers_are_drawn_evenly.2.2 1 7 (by decide)
  exact ⟨by decide, by decide, by decide, hrange default,
    heven (by decide) 6 (by decide) (by decide)⟩

end Arbor.Xorshift
