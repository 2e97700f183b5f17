import Arbor.Proofs.Binary64.Between
import Arbor.Proofs.Binary64.Order
import Arbor.Proofs.Random.Draws
import Arbor.Proofs.Random.Rounded
import Arbor.Proofs.Random.Step

/-! # Draws from an interval of machine numbers

A draw from an interval is never below its lower end. It is not above the upper end as long as
the width of the interval does not overflow, but it may meet that end. Whether some state does
so is told by the top one.
-/

namespace Arbor.Xorshift

open Binary64 RandomSource

variable {low high : Float}

theorem portion_unit (x : UInt32) : Portion (unit x : Float) := by
  obtain ⟨hfin, hnonneg, hle⟩ := unit_mem_of_rounded x
  exact ⟨hfin, hnonneg, hle⟩

theorem drawBetween_fst (low high : Float) (g : Xorshift) :
    (drawBetween low high g).1 = unit (step g.state) * (high - low) + low := rfl

section Bounds

variable (hl : low.isFinite = true) (hh : high.isFinite = true) (h : value low < value high)

include hl hh h

theorem unpack_drawBetween_of_overflow (hw : (high - low).isFinite = false) {g : Xorshift}
    (hg : g.state ≠ 0) : (drawBetween low high g).1.toModel.unpack = .infinity .positive := by
  have hpos := value_unit_pos fun h0 => hg (step_injective (h0.trans step_zero.symm))
  have htop := unpack_sub_of_not_isFinite hl hh h hw
  rw [drawBetween_fst]
  exact unpack_add_of_isFinite (unpack_mul_of_pos (portion_unit _).finite hpos htop) hl

theorem value_drawBetween_mem (hw : (high - low).isFinite = true) (g : Xorshift) :
    (drawBetween low high g).1.isFinite = true ∧
      value (drawBetween low high g).1 ∈ Set.Icc (value low) (value high) :=
  (Stretch.mk hl hh h hw).point_mem (portion_unit _)

theorem le_drawBetween {g : Xorshift} (hg : g.state ≠ 0) :
    Scalar.le low (drawBetween low high g).1 = true := by
  by_cases hw : (high - low).isFinite = true
  · obtain ⟨hfin, hmem⟩ := value_drawBetween_mem hl hh h hw g
    exact (le_iff hl hfin).mpr hmem.1
  · exact (le_of_unpack hl
      (unpack_drawBetween_of_overflow hl hh h (Bool.not_eq_true _ ▸ hw) hg)).1

theorem drawBetween_le_iff {g : Xorshift} (hg : g.state ≠ 0) :
    Scalar.le (drawBetween low high g).1 high = true ↔ (high - low).isFinite = true := by
  by_cases hw : (high - low).isFinite = true
  · obtain ⟨hfin, hmem⟩ := value_drawBetween_mem hl hh h hw g
    exact iff_of_true ((le_iff hfin hh).mpr hmem.2) hw
  · have hover := unpack_drawBetween_of_overflow hl hh h (Bool.not_eq_true _ ▸ hw) hg
    exact iff_of_false (by rw [(le_of_unpack hh hover).2]; exact Bool.false_ne_true) hw

/-- If the draw of the top state is below the upper end, so are all draws. -/
theorem forall_drawBetween_lt_iff :
    (∀ g : Xorshift, g.state ≠ 0 → Scalar.lt (drawBetween low high g).1 high = true) ↔
      Scalar.lt (between low high (unit topState)) high = true := by
  have htop : between low high (unit topState) =
      (drawBetween low high (⟨253081614⟩ : Xorshift)).1 := by
    rw [drawBetween_fst, step_eq_topState]
    rfl
  have hstate : (253081614 : UInt32) ≠ 0 := by decide
  rw [htop]
  constructor
  · intro hall
    exact hall ⟨253081614⟩ hstate
  · intro hlt g hg
    have hw : (high - low).isFinite = true := by
      by_contra hover
      have hinf := unpack_drawBetween_of_overflow hl hh h (Bool.not_eq_true _ ▸ hover)
        (g := ⟨253081614⟩) hstate
      rw [Boundless.lt_eq_false (Or.inr hinf)] at hlt
      cases hlt
    obtain ⟨hfin, -⟩ := value_drawBetween_mem hl hh h hw g
    obtain ⟨hfin_top, -⟩ := value_drawBetween_mem hl hh h hw ⟨253081614⟩
    rw [lt_iff hfin_top hh, drawBetween_fst, step_eq_topState] at hlt
    rw [lt_iff hfin hh, drawBetween_fst]
    by_cases hx : step g.state = topState
    · rwa [hx]
    · exact (Stretch.mk hl hh h hw).point_lt_of_lt (portion_unit _) (portion_unit _)
        (value_unit_lt hx) hlt

end Bounds

/-- A draw from an interval is at least its lower end. It is at most its upper end iff the width
does not overflow, and below that end for all states iff for the top one. It is so where the width
is exact, as large as the upper end and above half the least normal number. -/
theorem drawBetween_stays_in_interval (hl : low.isFinite = true) (hh : high.isFinite = true)
    (h : Scalar.lt low high = true) :
    (∀ g : Xorshift, g.state ≠ 0 → Scalar.le low (drawBetween low high g).1 = true ∧
      (Scalar.le (drawBetween low high g).1 high = true ↔ (high - low).isFinite = true)) ∧
    ((∀ g : Xorshift, g.state ≠ 0 → Scalar.lt (drawBetween low high g).1 high = true) ↔
      Scalar.lt (between low high (unit topState)) high = true) ∧
    ((high - low).isFinite = true → value (high - low) = value high - value low →
      |value high| ≤ value high - value low → (2 : ℝ) ^ (-1023 : ℤ) < value high - value low →
      ∀ g : Xorshift, Scalar.lt (drawBetween low high g).1 high = true) := by
  rw [lt_iff hl hh] at h
  refine ⟨fun g hg => ⟨le_drawBetween hl hh h hg, drawBetween_le_iff hl hh h hg⟩,
    forall_drawBetween_lt_iff hl hh h, fun hw hexact hwide hlarge g => ?_⟩
  obtain ⟨hfin, -⟩ := value_drawBetween_mem hl hh h hw g
  rw [lt_iff hfin hh, drawBetween_fst]
  exact (Stretch.mk hl hh h hw).point_lt (portion_unit _) hexact hwide hlarge

set_option maxRecDepth 8192 in
theorem drawBetween_stays_in_interval_symmetric :
    (-1 : Float).isFinite = true ∧ (1 : Float).isFinite = true ∧
      Scalar.lt (-1 : Float) 1 = true ∧ ∀ g : Xorshift, g.state ≠ 0 →
        Scalar.le (-1) (drawBetween (-1 : Float) 1 g).1 = true ∧
        Scalar.lt (drawBetween (-1 : Float) 1 g).1 1 = true := by
  have hl : (-1 : Float).isFinite = true := by decide
  have hh : (1 : Float).isFinite = true := by decide
  have h : Scalar.lt (-1 : Float) 1 = true := by decide
  obtain ⟨hlow, hhigh, -⟩ := drawBetween_stays_in_interval hl hh h
  have hall := hhigh.mpr (by decide)
  exact ⟨hl, hh, h, fun g hg => ⟨(hlow g hg).1, hall g hg⟩⟩

def aboveOne : Float := Float.ofBits 0x3FF0000000000001

set_option maxRecDepth 8192 in
/-- One is the only number from one on and below the next number, and the generator of a seed
draws that next number. -/
theorem upper_end_is_drawn :
    ∃ g, ofSeed "tree" = .ok g ∧ g.state ≠ 0 ∧ (1 : Float).isFinite = true ∧
      aboveOne.isFinite = true ∧ Scalar.lt 1 aboveOne = true ∧
      (drawBetween 1 aboveOne g).1 = aboveOne ∧
      ¬ Scalar.lt (drawBetween 1 aboveOne g).1 aboveOne = true :=
  ⟨⟨hash "tree"⟩, by decide, by decide, by decide, by decide,
    by decide, by decide, by decide⟩

end Arbor.Xorshift
