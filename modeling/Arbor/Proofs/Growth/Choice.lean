import Arbor.Grammar.Catalog
import Arbor.Proofs.Grammar.Index
import Arbor.Proofs.Growth.Draws

/-! # Growth without a choice

Where every symbol has one rule, or rules that weigh nothing together, its first rule is
chosen whatever is drawn. So the word that grows does not depend on the source. Where no
rules weigh anything together, nothing is drawn, and the source stays as it was.
-/

namespace Arbor

variable {ρ ρ' : Type} [RandomSource ρ Float] [RandomSource ρ' Float]

theorem Alternatives.choose_fst_of_rest_eq_nil {a : Alternatives} (h : a.rest = [])
    (source : ρ) : (a.choose source).1 = a.first := by
  cases hw : Scalar.le a.totalWeight 0 with
  | true => rw [a.choose_of_le hw]
  | false =>
    rw [a.choose_of_not_le hw]
    simp only [toList, h, Selection.firstAbove?]
    split <;> rfl

namespace RuleIndex

/-- Every symbol has one rule, or rules that weigh nothing together. -/
def LeavesNoChoice (index : RuleIndex) : Prop :=
  ∀ c a, index.candidates? c = some a → a.toList.length = 1 ∨ Scalar.le a.totalWeight 0 = true

variable {index : RuleIndex} {limits : Limits} {start : Word} {n : Nat}

theorem leavesNoChoice_of_groups (h : ∀ x ∈ index.groups, x.2.toList.length = 1) :
    index.LeavesNoChoice := by
  intro c a ha
  exact Or.inl (h (c, a) (mem_groups_of_candidates ha))

theorem LeavesNoChoice.choose_fst (h : index.LeavesNoChoice) {c : Char} {a : Alternatives}
    (ha : index.candidates? c = some a) (source : ρ) : (a.choose source).1 = a.first := by
  rcases h c a ha with hl | hw
  · simp only [Alternatives.toList, List.length_cons, Nat.add_eq_right,
      List.length_eq_zero_iff] at hl
    exact a.choose_fst_of_rest_eq_nil hl source
  · rw [a.choose_of_le hw]

theorem LeavesNoChoice.rewrite_fst (h : index.LeavesNoChoice) (c : Char) (source : ρ)
    (source' : ρ') : (index.rewrite c source).1 = (index.rewrite c source').1 := by
  simp only [rewrite]
  cases ha : index.candidates? c with
  | none => rfl
  | some a => simp only [h.choose_fst ha]

theorem LeavesNoChoice.rewriteAll_fst (h : index.LeavesNoChoice) (word : Word) (source : ρ)
    (source' : ρ') : (index.rewriteAll word source).1 = (index.rewriteAll word source').1 := by
  induction word generalizing source source' with
  | nil => rfl
  | cons c rest ih =>
    rw [rewriteAll_cons, rewriteAll_cons, h.rewrite_fst c source source', ih]

theorem LeavesNoChoice.generation_fst (h : index.LeavesNoChoice) (start : Word) (source : ρ)
    (source' : ρ') (k : Nat) :
    (index.generation start source k).1 = (index.generation start source' k).1 := by
  induction k with
  | zero => rfl
  | succ k ih =>
    rw [generation_succ, generation_succ, ih]
    exact congrArg (_ ++ ·) (h.rewriteAll_fst _ _ _)

theorem LeavesNoChoice.outcome_grow (h : index.LeavesNoChoice) (limits : Limits) (start : Word)
    (n : Nat) (source : ρ) (source' : ρ') :
    (index.grow limits start n source).outcome = (index.grow limits start n source').outcome :=
  outcome_grow_congr (h.generation_fst start source source')

/-! ## Rules without weights -/

def Weightless (index : RuleIndex) : Prop :=
  ∀ c a, index.candidates? c = some a → Scalar.le a.totalWeight 0 = true

theorem weightless_of_groups (h : ∀ x ∈ index.groups, Scalar.le x.2.totalWeight 0 = true) :
    index.Weightless := by
  intro c a ha
  exact h (c, a) (mem_groups_of_candidates ha)

theorem Weightless.draws_eq_zero (h : index.Weightless) (word : Word) : index.draws word = 0 := by
  rw [draws, List.countP_eq_zero]
  intro c _
  rw [isWeighted]
  cases ha : index.candidates? c with
  | none => exact Bool.false_ne_true
  | some a => simp only [h c a ha, Bool.not_true, Bool.false_eq_true, not_false_eq_true]

theorem Weightless.source_generation (h : index.Weightless) (start : Word) (source : ρ) (n : Nat) :
    (index.generation start source n).2 = source := by
  simp only [RuleIndex.source_generation, h.draws_eq_zero, Finset.sum_const_zero,
    RandomSource.skip_zero]

end RuleIndex

theorem Grammar.leavesNoChoice_bush : Grammar.bush.index.LeavesNoChoice :=
  RuleIndex.leavesNoChoice_of_groups (by decide)

theorem Grammar.weightless_bush : Grammar.bush.index.Weightless :=
  RuleIndex.weightless_of_groups (by decide)

end Arbor
