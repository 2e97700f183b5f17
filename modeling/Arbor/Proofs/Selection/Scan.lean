import Arbor.Proofs.Grammar.Index
import Mathlib.Data.List.Infix

/-! # The scan of a weighted choice

The item that is chosen is the first one with which the running sum of weights exceeds the point
that was drawn. Choosing does not look at the items beyond their weights, so it may as well be
told by positions.
-/

namespace Arbor.Selection

variable {α β γ ρ : Type} [Scalar α] {weight : β → α} {point sum : α} {items : List β} {b : β}

def sumFrom (weight : β → α) (sum : α) (items : List β) : α :=
  items.foldl (fun sum b => sum + weight b) sum

@[simp] theorem sumFrom_nil : sumFrom weight sum [] = sum := rfl

@[simp] theorem sumFrom_cons (rest : List β) :
    sumFrom weight sum (b :: rest) = sumFrom weight (sum + weight b) rest := rfl

theorem sumFrom_concat (items : List β) (b : β) :
    sumFrom weight sum (items ++ [b]) = sumFrom weight sum items + weight b :=
  List.foldl_concat _ _ _ _

theorem firstAbove?_eq_none_iff (h : Scalar.lt point sum = false) :
    firstAbove? weight point sum items = none ↔
      ∀ before, before <+: items → Scalar.lt point (sumFrom weight sum before) = false := by
  induction items generalizing sum with
  | nil => simp [firstAbove?, h]
  | cons b rest ih =>
    simp only [firstAbove?, List.prefix_cons_iff]
    cases hb : Scalar.lt point (sum + weight b) with
    | true =>
      simp only [if_true]
      constructor
      · rintro ⟨⟩
      · intro hall
        have hlt := hall [b] (Or.inr ⟨[], rfl, List.nil_prefix⟩)
        rw [sumFrom_cons, sumFrom_nil, hb] at hlt
        cases hlt
    | false =>
      simp only [Bool.false_eq_true, if_false]
      rw [ih hb]
      constructor
      · rintro hall before (rfl | ⟨before, rfl, hp⟩)
        · exact h
        · exact hall before hp
      · intro hall before hp
        exact hall (b :: before) (Or.inr ⟨before, rfl, hp⟩)

theorem firstAbove?_eq_some_iff :
    firstAbove? weight point sum items = some b ↔
      ∃ before after, items = before ++ b :: after ∧
        firstAbove? weight point sum before = none ∧
        Scalar.lt point (sumFrom weight sum (before ++ [b])) = true := by
  induction items generalizing sum with
  | nil => simp [firstAbove?]
  | cons c rest ih =>
    simp only [firstAbove?]
    cases hc : Scalar.lt point (sum + weight c) with
    | true =>
      simp only [if_true, Option.some.injEq]
      constructor
      · rintro rfl
        exact ⟨[], rest, rfl, rfl, hc⟩
      · rintro ⟨before, after, hitems, hnone, -⟩
        cases before with
        | nil => exact (List.cons.inj hitems).1
        | cons d before =>
          obtain ⟨rfl, -⟩ := List.cons.inj hitems
          simp only [firstAbove?, hc, if_true] at hnone
          cases hnone
    | false =>
      simp only [Bool.false_eq_true, if_false]
      rw [ih]
      constructor
      · rintro ⟨before, after, rfl, hnone, hlt⟩
        refine ⟨c :: before, after, rfl, ?_, hlt⟩
        simp only [firstAbove?, hc, Bool.false_eq_true, if_false]
        exact hnone
      · rintro ⟨before, after, hitems, hnone, hlt⟩
        cases before with
        | nil =>
          obtain ⟨rfl, -⟩ := List.cons.inj hitems
          rw [List.nil_append, sumFrom_cons, sumFrom_nil, hc] at hlt
          cases hlt
        | cons d before =>
          obtain ⟨rfl, hrest⟩ := List.cons.inj hitems
          simp only [firstAbove?, hc, Bool.false_eq_true, if_false] at hnone
          exact ⟨before, after, hrest, hnone, hlt⟩

/-! ## Positions -/

theorem total_map (f : γ → β) (items : List γ) :
    total weight (items.map f) = total (weight ∘ f) items := by
  rw [total, total, List.foldl_map]
  rfl

theorem firstAbove?_map (f : γ → β) (items : List γ) :
    firstAbove? weight point sum (items.map f) =
      (firstAbove? (weight ∘ f) point sum items).map f := by
  induction items generalizing sum with
  | nil => rfl
  | cons c rest ih =>
    simp only [List.map_cons, firstAbove?, ih, Function.comp_apply]
    split <;> rfl

variable [RandomSource ρ α] {first : β} {rest : List β}

theorem choose_of_le (h : Scalar.le (total weight (first :: rest)) 0 = true) (source : ρ) :
    choose weight first rest source = (first, source) :=
  if_pos h

theorem choose_of_not_le (h : Scalar.le (total weight (first :: rest)) 0 = false) (source : ρ) :
    choose weight first rest source =
      ((firstAbove? weight (RandomSource.between 0 (total weight (first :: rest))
          (RandomSource.draw source).1) 0 (first :: rest)).getD first,
        (RandomSource.draw (α := α) source).2) :=
  if_neg (Bool.eq_false_iff.mp h)

theorem choose_map (f : γ → β) (first : γ) (rest : List γ) (source : ρ) :
    choose weight (f first) (rest.map f) source =
      (f (choose (weight ∘ f) first rest source).1, (choose (weight ∘ f) first rest source).2) := by
  simp only [choose, ← List.map_cons, total_map, firstAbove?_map]
  split
  · rfl
  · rw [Option.getD_map]

def chosenAt (weight : β → α) (first : β) (rest : List β) (source : ρ) : ℕ :=
  (choose (weight ∘ Prod.fst) (first, 0) (rest.zipIdx 1) source).1.2

theorem getElem?_chosenAt (weight : β → α) (first : β) (rest : List β) (source : ρ) :
    (first :: rest)[chosenAt weight first rest source]? =
      some (choose weight first rest source).1 := by
  have hmap : choose weight first ((rest.zipIdx 1).map Prod.fst) source = _ :=
    choose_map Prod.fst (first, 0) (rest.zipIdx 1) source
  rw [List.zipIdx_map_fst] at hmap
  have hmem := choose_mem (weight ∘ Prod.fst) (first, 0) (rest.zipIdx 1) source
  rw [← List.zipIdx_cons, List.mem_zipIdx_iff_getElem?] at hmem
  rw [chosenAt, hmem, hmap]

end Arbor.Selection
