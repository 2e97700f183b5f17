import Arbor.Grammar.Catalog
import Arbor.Proofs.Grammar.Index
import Arbor.Proofs.Growth.Outcome
import Mathlib

/-! # Growth as linear algebra

Where all rules of a symbol write each symbol equally often, what is drawn does not matter for
the counts of symbols. A pass applies a matrix to the counts and adds them, so the counts of every
generation, and with them the end of a limited growth, are known from the powers of that matrix.
-/

namespace Arbor

open Matrix

noncomputable local instance fintypeChar : Fintype Char :=
  Fintype.ofInjective (fun c : Char => c.val) fun _ _ => Char.ext

def counts (word : Word) : Char → ℕ := fun c => word.count c

@[simp] theorem counts_nil : counts [] = 0 := rfl

@[simp] theorem counts_append (u v : Word) : counts (u ++ v) = counts u + counts v :=
  funext fun _ => List.count_append

theorem counts_singleton (d : Char) : counts [d] = Pi.single d 1 := by
  funext c
  simp only [counts, List.count_singleton, Pi.single_apply, beq_iff_eq, eq_comm (a := c)]

theorem counts_cons (d : Char) (rest : Word) :
    counts (d :: rest) = Pi.single d 1 + counts rest := by
  rw [← List.singleton_append, counts_append, counts_singleton]

theorem counts_eq_iff_perm {u v : Word} : counts u = counts v ↔ u.Perm v :=
  funext_iff.trans List.perm_iff_count.symm

theorem sum_counts (word : Word) : ∑ c, counts word c = word.length := by
  have hsum := Multiset.sum_count_eq_card (m := (word : Multiset Char))
    fun a _ => Finset.mem_univ a
  simpa only [counts, Multiset.coe_count, Multiset.coe_card] using hsum

namespace Grammar

/-- Any two rules of a symbol write each symbol equally often. -/
def FixesCounts (g : Grammar) : Prop :=
  ∀ r ∈ g.rules, ∀ r' ∈ g.rules, r.input = r'.input → counts r.output = counts r'.output

/-- What the first rule of a symbol writes; without rules, the symbol itself. -/
def image (g : Grammar) (d : Char) : Word :=
  match g.rules.find? (·.input = d) with
  | some r => r.output
  | none => [d]

/-- The matrix whose columns count what each symbol is rewritten to. -/
def growthMatrix (g : Grammar) : Matrix Char Char ℕ := .of fun c d => counts (g.image d) c

variable {ρ : Type} [RandomSource ρ Float] {g : Grammar}

theorem col_growthMatrix (g : Grammar) (d : Char) : g.growthMatrix.col d = counts (g.image d) := rfl

theorem FixesCounts.counts_rewrite (h : g.FixesCounts) (d : Char) (source : ρ) :
    counts (g.index.rewrite d source).1 = counts (g.image d) := by
  rw [RuleIndex.rewrite, image]
  cases ha : g.index.candidates? d with
  | none =>
    have hfind : g.rules.find? (·.input = d) = none := by
      simpa using forall_ne_of_candidates ha
    rw [hfind]
  | some a =>
    obtain ⟨hmem, hinput⟩ := (mem_candidates_iff ha).mp (a.choose_mem source)
    cases hfind : g.rules.find? (·.input = d) with
    | none => exact absurd hinput (by simpa using List.find?_eq_none.mp hfind _ hmem)
    | some r =>
      have hr : r.input = d := by simpa using List.find?_some hfind
      exact h _ hmem r (List.mem_of_find?_eq_some hfind) (hinput.trans hr.symm)

theorem FixesCounts.counts_rewriteAll (h : g.FixesCounts) (word : Word) (source : ρ) :
    counts (g.index.rewriteAll word source).1 = g.growthMatrix *ᵥ counts word := by
  induction word generalizing source with
  | nil => rw [RuleIndex.rewriteAll, counts_nil, mulVec_zero]
  | cons d rest ih =>
    rw [RuleIndex.rewriteAll_cons, counts_append, counts_cons, mulVec_add, mulVec_single_one,
      col_growthMatrix, ih, h.counts_rewrite]

/-- Each pass multiplies the counts by the same matrix, whatever is drawn. -/
theorem FixesCounts.counts_generation (h : g.FixesCounts) (start : Word) (source : ρ) (n : ℕ) :
    counts (g.index.generation start source n).1 = (1 + g.growthMatrix) ^ n *ᵥ counts start := by
  induction n with
  | zero => rw [pow_zero, one_mulVec, RuleIndex.generation]
  | succ n ih =>
    rw [RuleIndex.generation_succ, counts_append, h.counts_rewriteAll, ih, pow_succ',
      ← mulVec_mulVec, add_mulVec, one_mulVec]

theorem FixesCounts.length_generation (h : g.FixesCounts) (start : Word) (source : ρ) (n : ℕ) :
    (g.index.generation start source n).1.length =
      ∑ c, ((1 + g.growthMatrix) ^ n *ᵥ counts start) c := by
  rw [← sum_counts, h.counts_generation]

/-- Where the counts are fixed, the powers of the growth matrix tell the counts of the word that
grows, its length, and whether and when a growth runs out of room. -/
theorem growth_by_matrix (h : g.FixesCounts) {limits : Limits} {n : ℕ}
    (hn : n ≤ limits.maxIterations) (start : Word) (source : ρ) :
    let census k := (1 + g.growthMatrix) ^ k *ᵥ counts start
    let outcome := (g.index.grow limits start n source).outcome
    (∀ word, outcome = .ok word → counts word = census n ∧ word.length = ∑ c, census n c) ∧
    ((∃ word, outcome = .ok word) ↔ ∀ j ≤ n, ∑ c, census j c ≤ limits.maxSymbols) ∧
    ((∃ k, outcome = .error (.expansionTooLarge k limits.maxSymbols)) ↔
      ∃ j ≤ n, limits.maxSymbols < ∑ c, census j c) ∧
    ∀ k, outcome = .error (.expansionTooLarge k limits.maxSymbols) ↔
      IsLeast {j | j ≤ n ∧ limits.maxSymbols < ∑ c, census j c} k := by
  intro census outcome
  have hlength (j : ℕ) : ∑ c, census j c = (g.index.generation start source j).1.length :=
    (h.length_generation start source j).symm
  simp only [hlength]
  have hleast k := show outcome = .error (.expansionTooLarge k limits.maxSymbols) ↔
      IsLeast {j | j ≤ n ∧ limits.maxSymbols < (g.index.generation start source j).1.length} k from
    ⟨RuleIndex.isLeast_of_grow_eq_error hn, RuleIndex.grow_of_isLeast hn⟩
  refine ⟨fun word hw => ?_, ⟨?_, fun hle => ?_⟩, ⟨?_, ?_⟩, hleast⟩
  · obtain ⟨-, -, rfl⟩ := RuleIndex.outcome_grow_eq_ok_iff.mp hw
    exact ⟨h.counts_generation start source n, rfl⟩
  · rintro ⟨word, hw⟩ j hj
    exact (RuleIndex.length_generation_mono g.index start source hj).trans
      (RuleIndex.outcome_grow_eq_ok_iff.mp hw).2.1
  · exact ⟨_, RuleIndex.outcome_grow_eq_ok_iff.mpr ⟨hn, hle n le_rfl, rfl⟩⟩
  · rintro ⟨k, hk⟩
    exact ⟨k, ((hleast k).mp hk).1⟩
  · rintro ⟨j, hj, hlt⟩
    rcases RuleIndex.exists_isLeast_or_length_le g.index limits start n source with ⟨k, hk⟩ | hle
    · exact ⟨k, (hleast k).mpr hk⟩
    · have hmono := RuleIndex.length_generation_mono g.index start source hj
      omega

def swaying : Grammar where
  start := meadow.start
  rules := [⟨'F', ['F', '[', '+', 'F', ']'], 1⟩, ⟨'F', ['[', '+', 'F', ']', 'F'], 3⟩]
  start_ne_nil := meadow.start_ne_nil
  rules_ne_nil := by decide
  weighs := by decide

theorem growth_by_matrix_swaying :
    swaying.FixesCounts ∧ ∑ c, ((1 + swaying.growthMatrix) ^ 2 *ᵥ counts ['F']) c = 24 ∧
      ∃ k, (swaying.index.grow ⟨8, 20⟩ ['F'] 2 Xorshift.default).outcome =
        .error (.expansionTooLarge k 20) := by
  have hfix : swaying.FixesCounts := by
    simp only [FixesCounts, counts_eq_iff_perm]
    decide
  have hroom : ((swaying.index.grow ⟨8, 100⟩ ['F'] 2 Xorshift.default).outcome.toOption.map
      List.length) = some 24 := by decide +kernel
  have hsum : ∑ c, ((1 + swaying.growthMatrix) ^ 2 *ᵥ counts ['F']) c = 24 := by
    obtain ⟨word, hw, hword⟩ := exists_eq_ok_of_map hroom
    have hn : 2 ≤ (⟨8, 100⟩ : Limits).maxIterations := by decide
    obtain ⟨-, hlength⟩ := (growth_by_matrix hfix hn ['F'] Xorshift.default).1 word hw
    rw [← hlength, hword]
  have hn : 2 ≤ (⟨8, 20⟩ : Limits).maxIterations := by decide
  have hover := (growth_by_matrix hfix hn ['F'] Xorshift.default).2.2.1
  exact ⟨hfix, hsum, hover.mpr ⟨2, le_rfl, by rw [hsum]; decide⟩⟩

end Grammar

end Arbor
