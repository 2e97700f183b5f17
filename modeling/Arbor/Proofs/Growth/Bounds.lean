import Arbor.Grammar.Catalog
import Arbor.Proofs.Grammar.Index
import Arbor.Proofs.Growth.Outcome
import Mathlib

/-! # Bounds on growth

Whatever a source draws, a symbol is rewritten to no more symbols than the longest output has,
and to at least one if no output is empty. So the length of a generation lies between two
geometric sequences, and where one of them decides, a growth need not be tried.
-/

namespace Arbor

variable {ρ : Type} [RandomSource ρ Float]

namespace RuleIndex

/-- Whatever is drawn, a symbol is rewritten to at least `l` and at most `m` symbols. -/
def Writes (index : RuleIndex) (ρ : Type) [RandomSource ρ Float] (l m : ℕ) : Prop :=
  ∀ (c : Char) (source : ρ), (index.rewrite c source).1.length ∈ Set.Icc l m

variable {index : RuleIndex} {l m : ℕ}

theorem Writes.rewriteAll (h : index.Writes ρ l m) (word : Word) (source : ρ) :
    (index.rewriteAll word source).1.length ∈ Set.Icc (word.length * l) (word.length * m) := by
  induction word generalizing source with
  | nil => simp [RuleIndex.rewriteAll]
  | cons c rest ih =>
    obtain ⟨hl, hm⟩ := h c source
    obtain ⟨hl', hm'⟩ := ih (index.rewrite c source).2
    rw [rewriteAll_cons, List.length_append, List.length_cons, Nat.succ_mul, Nat.succ_mul]
    constructor <;> omega

theorem Writes.generation (h : index.Writes ρ l m) (start : Word) (source : ρ) (n : ℕ) :
    (index.generation start source n).1.length ∈
      Set.Icc (start.length * (1 + l) ^ n) (start.length * (1 + m) ^ n) := by
  induction n with
  | zero => simp [RuleIndex.generation]
  | succ n ih =>
    obtain ⟨hl, hm⟩ := ih
    obtain ⟨hl', hm'⟩ := h.rewriteAll (index.generation start source n).1
      (index.generation start source n).2
    rw [generation_succ, List.length_append, Nat.pow_succ, Nat.pow_succ, ← Nat.mul_assoc,
      ← Nat.mul_assoc]
    constructor
    · calc start.length * (1 + l) ^ n * (1 + l)
          ≤ (index.generation start source n).1.length * (1 + l) := Nat.mul_le_mul_right _ hl
        _ = (index.generation start source n).1.length +
            (index.generation start source n).1.length * l := by rw [Nat.mul_add, Nat.mul_one]
        _ ≤ _ := Nat.add_le_add_left hl' _
    · calc _ ≤ (index.generation start source n).1.length +
            (index.generation start source n).1.length * m := Nat.add_le_add_left hm' _
        _ = (index.generation start source n).1.length * (1 + m) := by rw [Nat.mul_add, Nat.mul_one]
        _ ≤ start.length * (1 + m) ^ n * (1 + m) := Nat.mul_le_mul_right _ hm

end RuleIndex

namespace Grammar

/-- The length of the longest output, but at least one: symbols without rules are copied. -/
def longestOutput (g : Grammar) : ℕ := max 1 ((g.rules.map fun r => r.output.length).foldr max 0)

def DeletesNothing (g : Grammar) : Prop := ∀ r ∈ g.rules, r.output ≠ []

variable {g : Grammar} {r : Rule}

theorem length_output_le (h : r ∈ g.rules) : r.output.length ≤ g.longestOutput := by
  have hmem : r.output.length ∈ g.rules.map fun r => r.output.length := List.mem_map_of_mem h
  exact le_max_of_le_right (List.le_max_of_le hmem le_rfl)

theorem rewrite_cases (g : Grammar) (c : Char) (source : ρ) :
    (g.index.rewrite c source).1 = [c] ∨
      ∃ r ∈ g.rules, (g.index.rewrite c source).1 = r.output := by
  rw [RuleIndex.rewrite]
  cases h : g.index.candidates? c with
  | none => exact Or.inl rfl
  | some a => exact Or.inr ⟨_, ((mem_candidates_iff h).mp (a.choose_mem source)).1, rfl⟩

theorem writes_longestOutput (g : Grammar) : g.index.Writes ρ 0 g.longestOutput := by
  intro c source
  refine ⟨Nat.zero_le _, ?_⟩
  rcases g.rewrite_cases c source with h | ⟨r, hr, h⟩
  · rw [h]
    exact le_max_left 1 _
  · rw [h]
    exact length_output_le hr

theorem DeletesNothing.writes (h : g.DeletesNothing) : g.index.Writes ρ 1 g.longestOutput := by
  intro c source
  refine ⟨?_, (g.writes_longestOutput c source).2⟩
  rcases g.rewrite_cases c source with h' | ⟨r, hr, h'⟩
  · rw [h']
    rfl
  · rw [h']
    exact List.length_pos_iff.mpr (h r hr)

/-- A growth that ends well has at most as many symbols as if every pass wrote the longest output
for each of them, and at least doubles with each pass if no rule deletes. So it has room if even
the upper bound has, and none if even the lower bound has none. -/
theorem growth_bounds (g : Grammar) (limits : Limits) (start : Word) (n : ℕ) (source : ρ) :
    (∀ word, (g.index.grow limits start n source).outcome = .ok word →
      word.length ≤ start.length * (1 + g.longestOutput) ^ n ∧
        (g.DeletesNothing → start.length * 2 ^ n ≤ word.length)) ∧
    (n ≤ limits.maxIterations →
      (start.length * (1 + g.longestOutput) ^ n ≤ limits.maxSymbols →
        ∃ word, (g.index.grow limits start n source).outcome = .ok word) ∧
      (g.DeletesNothing → limits.maxSymbols < start.length * 2 ^ n →
        ∃ k ≤ n, (g.index.grow limits start n source).outcome =
          .error (.expansionTooLarge k limits.maxSymbols))) := by
  have hupper := (g.writes_longestOutput.generation start source n).2
  have hlower (h : g.DeletesNothing) := (h.writes.generation start source n).1
  refine ⟨fun word hw => ?_, fun hn => ⟨fun hroom => ?_, fun hd hover => ?_⟩⟩
  · obtain ⟨-, -, rfl⟩ := RuleIndex.outcome_grow_eq_ok_iff.mp hw
    exact ⟨hupper, hlower⟩
  · exact ⟨_, RuleIndex.outcome_grow_eq_ok_iff.mpr ⟨hn, hupper.trans hroom, rfl⟩⟩
  · rcases RuleIndex.outcome_grow_cases g.index start source hn with hok | herror
    · have hle := (RuleIndex.outcome_grow_eq_ok_iff.mp hok).2.1
      exact absurd (hover.trans_le ((hlower hd).trans hle)) (lt_irrefl _)
    · exact herror

theorem growth_bounds_meadow :
    meadow.longestOutput = 18 ∧ meadow.DeletesNothing ∧
      (∃ word, (meadow.index.grow ⟨8, 100⟩ ['F'] 1 Xorshift.default).outcome = .ok word ∧
        word.length ≤ 19 ∧ 2 ≤ word.length) ∧
      ∃ k ≤ 7, (meadow.index.grow ⟨8, 100⟩ ['F'] 7 Xorshift.default).outcome =
        .error (.expansionTooLarge k 100) := by
  have hlongest : meadow.longestOutput = 18 := by decide
  have hd : meadow.DeletesNothing := by simp [DeletesNothing, meadow, meadowRules]
  obtain ⟨hbounds, hends⟩ := growth_bounds meadow ⟨8, 100⟩ ['F'] 1 Xorshift.default
  obtain ⟨word, hword⟩ := (hends (by decide)).1 (by rw [hlongest]; decide)
  obtain ⟨hle, hge⟩ := hbounds word hword
  rw [hlongest] at hle
  exact ⟨hlongest, hd, ⟨word, hword, hle, hge hd⟩,
    ((growth_bounds meadow ⟨8, 100⟩ ['F'] 7 Xorshift.default).2 (by decide)).2 hd (by decide)⟩

end Grammar

end Arbor
