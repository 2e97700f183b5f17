import Arbor.Grammar.Basic

/-! # Built-in grammars

The plants that can be grown without a configuration.
-/

namespace Arbor.Grammar

/-- The productions that the bush and the shrub share. -/
def bushRules : List Rule :=
  [⟨'F', ['F', 'X', '[', 'F', 'X', '[', '+', 'X', 'F', ']', ']'], 0⟩,
    ⟨'X', ['F', '[', '+', 'X', 'Z', '+', '+', 'X', '-', 'F', '[', '+', 'Z', 'X', ']', ']',
      '[', '-', 'X', '+', '+', 'F', '-', 'X', ']'], 0⟩,
    ⟨'Z', ['[', '+', 'F', '-', 'X', '-', 'F', ']', '[', '+', '+', 'Z', 'X', ']'], 0⟩]

theorem weighs_bushRules : ∀ r ∈ bushRules, r.weighs = true := by decide

def bush : Grammar := ⟨['X'], bushRules, by simp, by simp [bushRules], weighs_bushRules⟩

def shrub : Grammar := ⟨['Z'], bushRules, by simp, by simp [bushRules], weighs_bushRules⟩

/-- Productions that branch left one time in four and right otherwise. -/
def meadowRules : List Rule :=
  [⟨'F', ['F', '[', '+', 'F', ']', 'F'], 1⟩,
    ⟨'F', ['F', '[', '-', 'F', ']', '[', '+', 'F', ']'], 3⟩,
    ⟨'X', ['F', '-', '[', '[', 'X', ']', '+', 'X', ']', '+', 'F', '[', '+', 'F', 'X', ']',
      '-', 'X'], 0⟩]

theorem weighs_meadowRules : ∀ r ∈ meadowRules, r.weighs = true := by decide

def meadow : Grammar := ⟨['F'], meadowRules, by simp, by simp [meadowRules], weighs_meadowRules⟩

end Arbor.Grammar
