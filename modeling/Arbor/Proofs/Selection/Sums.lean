import Arbor.Proofs.Binary64.Order
import Arbor.Proofs.Selection.Scan

/-! # Sums of machine weights

Running sums of weights are rounded, but they never fall, and no weight is above the sum that it
is part of. So if the sum of all weights is finite, the sums on the way are, too.
-/

namespace Arbor.Selection

open Binary64 Float.Model UnpackedFloat

variable {β : Type} {weight : β → Float} {items : List β} {sum : Float}

theorem sumFrom_append {α : Type} [Scalar α] (weight : β → α) (sum : α) (items items' : List β) :
    sumFrom weight sum (items ++ items') = sumFrom weight (sumFrom weight sum items) items' :=
  List.foldl_append

section Weights

variable (hw : ∀ b ∈ items, (weight b).isFinite = true ∧ 0 ≤ value (weight b))
include hw

theorem atLeastZero_sumFrom (hs : AtLeastZero sum) : AtLeastZero (sumFrom weight sum items) := by
  induction items generalizing sum with
  | nil => exact hs
  | cons b rest ih =>
    obtain ⟨hb, hrest⟩ := List.forall_mem_cons.mp hw
    exact ih hrest (hs.add (Or.inl hb))

theorem le_sumFrom (hs : AtLeastZero sum) (h : (sumFrom weight sum items).isFinite = true) :
    sum.isFinite = true ∧ value sum ≤ value (sumFrom weight sum items) := by
  induction items generalizing sum with
  | nil => exact ⟨h, le_rfl⟩
  | cons b rest ih =>
    obtain ⟨hb, hrest⟩ := List.forall_mem_cons.mp hw
    obtain ⟨hfin, hle⟩ := ih hrest (hs.add (Or.inl hb)) h
    obtain ⟨hfs, -⟩ := hs.isFinite_of_add (Or.inl hb) hfin
    exact ⟨hfs, ((isRounding_add hfs hb.1).le_value hfin (representable_value sum)
      (le_add_of_nonneg_right hb.2)).trans hle⟩

theorem le_sumFrom_of_prefix (hs : AtLeastZero sum)
    (h : (sumFrom weight sum items).isFinite = true) {before : List β} (hp : before <+: items) :
    (sumFrom weight sum before).isFinite = true ∧
      value (sumFrom weight sum before) ≤ value (sumFrom weight sum items) := by
  obtain ⟨after, rfl⟩ := hp
  obtain ⟨hbefore, hafter⟩ := List.forall_mem_append.mp hw
  rw [sumFrom_append] at h ⊢
  exact le_sumFrom hafter (atLeastZero_sumFrom hbefore hs) h

theorem weight_le_sumFrom (hs : AtLeastZero sum) (h : (sumFrom weight sum items).isFinite = true)
    {b : β} (hb : b ∈ items) : value (weight b) ≤ value (sumFrom weight sum items) := by
  obtain ⟨before, after, rfl⟩ := List.append_of_mem hb
  have hp : before ++ [b] <+: before ++ b :: after := ⟨after, by simp⟩
  obtain ⟨hfin, hle⟩ := le_sumFrom_of_prefix hw hs h hp
  have hbefore := atLeastZero_sumFrom (List.forall_mem_append.mp hw).1 hs
  obtain ⟨hfb, hb0⟩ := hw b hb
  rw [sumFrom_concat] at hfin hle
  obtain ⟨hfs, -⟩ := hbefore.isFinite_of_add (Or.inl ⟨hfb, hb0⟩) hfin
  exact ((isRounding_add hfs hfb).le_value hfin (representable_value _)
    (le_add_of_nonneg_left (hbefore.value_nonneg hfs))).trans hle

end Weights

/-! ## The total -/

/-- Sums that may differ in the sign of a zero. -/
def Alike (a b : Float) : Prop :=
  a = b ∨ ∃ s t, a.toModel.unpack = .zero s ∧ b.toModel.unpack = .zero t

theorem Alike.add {a b : Float} (h : Alike a b) (w : Float) : Alike (a + w) (b + w) := by
  rcases h with rfl | ⟨s, t, ha, hb⟩
  · exact Or.inl rfl
  · have hsum {x : Float} {r : Sign} (hx : x.toModel.unpack = .zero r) :
        x + w = .ofModel (pack (UnpackedFloat.add Format.binary64 (.zero r) w.toModel.unpack)) := by
      rw [← hx]
      rfl
    rw [hsum ha, hsum hb]
    cases hw : w.toModel.unpack with
    | infinity r => exact Or.inl rfl
    | notANumber => exact Or.inl rfl
    | finite r m e hm => exact Or.inl rfl
    | zero r =>
      refine Or.inr ?_
      cases s <;> cases t <;> cases r <;> exact ⟨_, _, rfl, rfl⟩

theorem Alike.isFinite_value {a b : Float} (h : Alike a b) :
    a.isFinite = b.isFinite ∧ value a = value b := by
  rcases h with rfl | ⟨s, t, ha, hb⟩
  · exact ⟨rfl, rfl⟩
  · have hzero {x : Float} {r : Sign} (hx : x.toModel.unpack = .zero r) :
        x.isFinite = true ∧ value x = 0 := by
      have hf : x.isFinite = true := by
        change x.toModel.unpack.isFinite = true
        rw [hx]
        rfl
      rcases unpack_cases hf with ⟨-, -, hv⟩ | ⟨s, m, e, hm, hu, -, -⟩
      · exact ⟨hf, hv⟩
      · rw [hx] at hu
        cases hu
    rw [(hzero ha).1, (hzero ha).2, (hzero hb).1, (hzero hb).2]
    exact ⟨rfl, rfl⟩

theorem Alike.sumFrom {a b : Float} (h : Alike a b) (weight : β → Float) (items : List β) :
    Alike (Selection.sumFrom weight a items) (Selection.sumFrom weight b items) := by
  induction items generalizing a b with
  | nil => exact h
  | cons c rest ih => exact ih (h.add (weight c))

/-- The total starts from the other zero than the scan does. -/
theorem alike_total (weight : β → Float) (items : List β) :
    Alike (total weight items) (sumFrom weight 0 items) :=
  Alike.sumFrom (Or.inr ⟨.negative, .positive, rfl, rfl⟩) weight items

end Arbor.Selection
