import Arbor.Proofs.Growth.Outcome
import Arbor.Proofs.Random.Draws
import Arbor.Proofs.Selection.Scan
import Mathlib.Algebra.BigOperators.Group.Finset.Basic

/-! # What a growth draws

A symbol takes one draw if its rules weigh anything together and none otherwise, whichever
rule is chosen. So the draws of a growth are counted on the words that it runs through.
-/

namespace Arbor

open RandomSource

variable {ρ : Type} [RandomSource ρ Float]

namespace Alternatives

theorem choose_of_le {a : Alternatives} (h : Scalar.le a.totalWeight 0 = true) (source : ρ) :
    a.choose source = (a.first, source) :=
  Selection.choose_of_le h source

theorem choose_of_not_le {a : Alternatives} (h : Scalar.le a.totalWeight 0 = false) (source : ρ) :
    a.choose source =
      ((Selection.firstAbove? Rule.weight (between 0 a.totalWeight (draw source).1) 0
        a.toList).getD a.first, (draw (α := Float) source).2) :=
  Selection.choose_of_not_le h source

end Alternatives

namespace RuleIndex

def isWeighted (index : RuleIndex) (c : Char) : Bool :=
  match index.candidates? c with
  | some a => !Scalar.le a.totalWeight 0
  | none => false

def draws (index : RuleIndex) (word : Word) : Nat := word.countP index.isWeighted

variable {index : RuleIndex} {limits : Limits} {start : Word} {n : Nat}

theorem draws_cons (index : RuleIndex) (c : Char) (rest : Word) :
    index.draws (c :: rest) = index.draws [c] + index.draws rest := by
  rw [draws, ← List.singleton_append, List.countP_append]
  rfl

theorem source_rewrite (index : RuleIndex) (c : Char) (source : ρ) :
    (index.rewrite c source).2 = skip Float (index.draws [c]) source := by
  rw [draws, List.countP_singleton, isWeighted, rewrite]
  cases index.candidates? c with
  | none => rfl
  | some a =>
    cases h : Scalar.le a.totalWeight 0 with
    | true =>
      simp only [h, a.choose_of_le h, Bool.not_true, Bool.false_eq_true, if_false, skip_zero]
    | false => simp only [h, a.choose_of_not_le h, Bool.not_false, if_true, skip_one]

theorem source_rewriteAll (index : RuleIndex) (word : Word) (source : ρ) :
    (index.rewriteAll word source).2 = skip Float (index.draws word) source := by
  induction word generalizing source with
  | nil => rfl
  | cons c rest ih => rw [rewriteAll_cons, ih, source_rewrite, ← skip_add, ← draws_cons]

theorem source_generation (index : RuleIndex) (start : Word) (source : ρ) (n : Nat) :
    (index.generation start source n).2 =
      skip Float (∑ k ∈ Finset.range n, index.draws (index.generation start source k).1)
        source := by
  induction n with
  | zero => rfl
  | succ n ih => rw [generation_succ, Finset.sum_range_succ, skip_add, ← ih, source_rewriteAll]

/-! ## Counting while growing -/

theorem rewrite_counted (index : RuleIndex) (c : Char) (source : Counted ρ) :
    (index.rewrite c source).1 = (index.rewrite c source.source).1 := by
  simp only [rewrite]
  cases index.candidates? c with
  | none => rfl
  | some a =>
    cases h : Scalar.le a.totalWeight 0 with
    | true => simp only [a.choose_of_le h]
    | false => simp only [a.choose_of_not_le h, Counted.draw_fst]

theorem rewriteAll_counted (index : RuleIndex) (word : Word) (source : Counted ρ) :
    (index.rewriteAll word source).1 = (index.rewriteAll word source.source).1 := by
  induction word generalizing source with
  | nil => rfl
  | cons c rest ih =>
    rw [rewriteAll_cons, rewriteAll_cons, ih, rewrite_counted, source_rewrite, source_rewrite,
      Counted.source_skip]

theorem generation_counted (index : RuleIndex) (start : Word) (source : Counted ρ) (n : Nat) :
    (index.generation start source n).1 = (index.generation start source.source n).1 ∧
      (index.generation start source n).2.source = (index.generation start source.source n).2 := by
  induction n with
  | zero => exact ⟨rfl, rfl⟩
  | succ n ih =>
    obtain ⟨hw, hs⟩ := ih
    rw [generation_succ, generation_succ, rewriteAll_counted, source_rewriteAll, source_rewriteAll,
      Counted.source_skip, hw, hs]
    exact ⟨rfl, rfl⟩

theorem rewriteWithin_counted (index : RuleIndex) (budget : Nat) (word written : Word)
    (added : Nat) (source : Counted ρ) :
    (index.rewriteWithin budget word written added source).1 =
        (index.rewriteWithin budget word written added source.source).1 ∧
      (index.rewriteWithin budget word written added source).2.source =
        (index.rewriteWithin budget word written added source.source).2 := by
  induction word generalizing written added source with
  | nil => exact ⟨rfl, rfl⟩
  | cons c rest ih =>
    have hs : (index.rewrite c source).2.source = (index.rewrite c source.source).2 := by
      rw [source_rewrite, source_rewrite, Counted.source_skip]
    simp only [rewriteWithin, rewrite_counted]
    split
    · exact ⟨rfl, hs⟩
    · rw [← hs]
      exact ih _ _ _

theorem passes_counted (index : RuleIndex) (limits : Limits) (left iteration : Nat) (word : Word)
    (count : Nat) (sizes : List Nat) (source : Counted ρ) :
    (index.passes limits left iteration word count sizes source).outcome =
        (index.passes limits left iteration word count sizes source.source).outcome ∧
      (index.passes limits left iteration word count sizes source).source.source =
        (index.passes limits left iteration word count sizes source.source).source := by
  induction left generalizing iteration word count sizes source with
  | zero => exact ⟨rfl, rfl⟩
  | succ left ih =>
    obtain ⟨hr, hs⟩ :=
      rewriteWithin_counted index (limits.maxSymbols - count) word [] 0 source
    rcases h : index.rewriteWithin (limits.maxSymbols - count) word [] 0 source with
      ⟨result, after⟩
    rcases h' : index.rewriteWithin (limits.maxSymbols - count) word [] 0 source.source with
      ⟨result', after'⟩
    rw [h, h'] at hr hs
    obtain rfl : result = result' := hr
    obtain rfl : after.source = after' := hs
    simp only [passes, h, h']
    cases result with
    | none => exact ⟨rfl, rfl⟩
    | some rewritten => exact ih _ _ _ _ _

theorem grow_counted (index : RuleIndex) (limits : Limits) (start : Word) (n : Nat)
    (source : Counted ρ) :
    (index.grow limits start n source).outcome =
        (index.grow limits start n source.source).outcome ∧
      (index.grow limits start n source).source.source =
        (index.grow limits start n source.source).source := by
  simp only [grow]
  cases limits.checkIterations n with
  | error e => exact ⟨rfl, rfl⟩
  | ok =>
    simp only
    split
    · exact ⟨rfl, rfl⟩
    · exact passes_counted index limits n 1 start start.length [] source

/-! ## Where a limited growth leaves its source -/

theorem source_grow_of_le (hn : n ≤ limits.maxIterations) {source : ρ}
    (h : (index.generation start source n).1.length ≤ limits.maxSymbols) :
    (index.grow limits start n source).source =
      skip Float (∑ k ∈ Finset.range n, index.draws (index.generation start source k).1)
        source := by
  rw [(grow_of_le hn h).2, source_generation]

/-- A growth that fails in a pass has taken the draws of the passes before and of the part of
the word up to the symbol that there was no room for. -/
theorem skip_grow_of_isLeast {k : Nat} (hn : n ≤ limits.maxIterations) {source : ρ}
    (hk : IsLeast {j | j ≤ n ∧
      limits.maxSymbols < (index.generation start source j).1.length} (k + 1)) :
    ∃ i, IsLeast {i | limits.maxSymbols - (index.generation start source k).1.length <
        (index.rewriteAll ((index.generation start source k).1.take i)
          (index.generation start source k).2).1.length} i ∧
      (index.grow limits start n source).source =
        skip Float (∑ j ∈ Finset.range k, index.draws (index.generation start source j).1 +
          index.draws ((index.generation start source k).1.take i)) source := by
  obtain ⟨i, hi, hs⟩ := source_grow_of_isLeast hn hk
  refine ⟨i, hi, ?_⟩
  rw [hs, source_rewriteAll, skip_add, ← source_generation]

end RuleIndex

end Arbor
