import Arbor.Grammar.Catalog
import Arbor.Proofs.Grammar.Index
import Arbor.Proofs.Growth.Outcome
import Arbor.Proofs.Turtle.Matching
import Mathlib.Data.List.Infix

/-! # Growth of balanced words

Where brackets are copied and everything else is rewritten to balanced words, rewriting keeps
the surplus of opening brackets from symbol to symbol. So it keeps balance, whatever rules
are chosen, and every word of a growth is balanced if the first one is.
-/

namespace Arbor

open Turtle

instance (w : Word) : Decidable (Balanced w) :=
  decidable_of_iff ((∀ u ∈ w.inits, u.count ']' ≤ u.count '[') ∧ w.count '[' = w.count ']') <| by
    simp only [List.mem_inits]
    exact ⟨fun h => ⟨h.1, h.2⟩, fun h => ⟨h.closing_le, h.count_eq⟩⟩

/-- The start word and all outputs are balanced, and no rule rewrites a bracket. -/
structure Grammar.KeepsBalance (g : Grammar) : Prop where
  start : Balanced g.start
  output : ∀ r ∈ g.rules, Balanced r.output
  input : ∀ r ∈ g.rules, r.input ≠ '[' ∧ r.input ≠ ']'

namespace Grammar.KeepsBalance

variable {ρ : Type} [RandomSource ρ Float] {g : Grammar} (hg : g.KeepsBalance)
include hg

theorem rewrite_bracket {c : Char} (hc : c = '[' ∨ c = ']') (source : ρ) :
    g.index.rewrite c source = ([c], source) := by
  have hn : g.index.candidates? c = none := by
    refine candidates_eq_none fun r hr => ?_
    rcases hc with rfl | rfl
    · exact (hg.input r hr).1
    · exact (hg.input r hr).2
  rw [RuleIndex.rewrite, hn]

theorem balanced_rewrite {c : Char} (hl : c ≠ '[') (hr : c ≠ ']') (source : ρ) :
    Balanced (g.index.rewrite c source).1 := by
  rw [RuleIndex.rewrite]
  cases h : g.index.candidates? c with
  | none => exact .singleton hl hr
  | some a =>
    have hm := (mem_candidates_iff h).mp (a.choose_mem source)
    exact hg.output _ hm.1

/-- A rewritten symbol opens as many brackets more than it closes as the symbol itself. -/
theorem count_rewrite (c : Char) (source : ρ) :
    (g.index.rewrite c source).1.count '[' + [c].count ']' =
      (g.index.rewrite c source).1.count ']' + [c].count '[' := by
  by_cases hc : c = '[' ∨ c = ']'
  · rw [hg.rewrite_bracket hc, Nat.add_comm]
  · obtain ⟨hl, hr⟩ := not_or.mp hc
    rw [(hg.balanced_rewrite hl hr source).count_eq]
    simp [hl, hr]

theorem closing_le_rewrite (c : Char) (source : ρ) {u : Word}
    (hu : u <+: (g.index.rewrite c source).1) : u.count ']' ≤ u.count '[' + [c].count ']' := by
  by_cases hc : c = '[' ∨ c = ']'
  · rw [hg.rewrite_bracket hc] at hu
    exact Nat.le_add_left_of_le (hu.sublist.count_le ']')
  · obtain ⟨hl, hr⟩ := not_or.mp hc
    exact Nat.le_add_right_of_le ((hg.balanced_rewrite hl hr source).closing_le u hu)

theorem count_rewriteAll (word : Word) (source : ρ) :
    (g.index.rewriteAll word source).1.count '[' + word.count ']' =
      (g.index.rewriteAll word source).1.count ']' + word.count '[' := by
  induction word generalizing source with
  | nil => rfl
  | cons c rest ih =>
    have hc := hg.count_rewrite c source
    have hr := ih (g.index.rewrite c source).2
    rw [RuleIndex.rewriteAll_cons, ← List.singleton_append]
    simp only [List.count_append]
    omega

theorem closing_le_rewriteAll {word : Word} (hw : ∀ u, u <+: word → u.count ']' ≤ u.count '[')
    (source : ρ) : ∀ u, u <+: (g.index.rewriteAll word source).1 → u.count ']' ≤ u.count '[' := by
  induction word using List.reverseRecOn with
  | nil =>
    intro u hu
    rw [List.prefix_nil.mp hu]
    exact Nat.le_refl _
  | append_singleton word c ih =>
    intro u hu
    rw [RuleIndex.rewriteAll_append, RuleIndex.rewriteAll_cons, RuleIndex.rewriteAll,
      List.append_nil] at hu
    rcases List.prefix_or_prefix_of_prefix hu (List.prefix_append _ _) with hu' | ⟨v, rfl⟩
    · exact ih (fun x hx => hw x (hx.trans (List.prefix_append _ _))) u hu'
    · -- What the last symbol closes too many was still open before it.
      have hv := hg.closing_le_rewrite c _ ((List.prefix_append_right_inj _).mp hu)
      have hcount := hg.count_rewriteAll word source
      have hword : word.count ']' ≤ word.count '[' := hw _ (List.prefix_append _ _)
      have hall : (word ++ [c]).count ']' ≤ (word ++ [c]).count '[' := hw _ List.prefix_rfl
      rw [List.count_append, List.count_append] at hall ⊢
      rcases bracket_cases c with rfl | rfl | ⟨hl, hr⟩
      · have hz : ['['].count ']' = 0 := rfl
        omega
      · have hz : [']'].count '[' = 0 := rfl
        omega
      · have hz : [c].count ']' = 0 := by simp [hr]
        omega

theorem balanced_rewriteAll {word : Word} (hw : Balanced word) (source : ρ) :
    Balanced (g.index.rewriteAll word source).1 := by
  have hcount := hg.count_rewriteAll word source
  refine ⟨hg.closing_le_rewriteAll hw.closing_le source, ?_⟩
  rw [hw.count_eq] at hcount
  exact Nat.add_right_cancel hcount

theorem balanced_generation (source : ρ) (n : Nat) :
    Balanced (g.index.generation g.start source n).1 := by
  induction n with
  | zero => exact hg.start
  | succ n ih => exact ih.append (hg.balanced_rewriteAll ih _)

end Grammar.KeepsBalance

theorem Grammar.keepsBalance_bush : Grammar.bush.KeepsBalance :=
  ⟨by decide, by decide, by decide +kernel⟩

end Arbor
