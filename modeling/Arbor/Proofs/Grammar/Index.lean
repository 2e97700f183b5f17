import Arbor.Grammar.Index
import Arbor.Grammar.Selection
import Mathlib.Data.List.Induction

/-! # The index holds the rules of a grammar

The rules that the index has for a symbol are those of the grammar that rewrite it, in the
order of the grammar. So every choice is one of them.
-/

namespace Arbor

namespace RuleIndex

theorem mem_groups_of_candidates {index : RuleIndex} {c : Char} {a : Alternatives}
    (h : index.candidates? c = some a) : (c, a) ∈ index.groups := by
  obtain ⟨before, after, hg, _⟩ := List.lookup_eq_some_iff.mp h
  rw [hg]
  exact List.mem_append_right _ List.mem_cons_self

theorem rulesFor_of_candidates {index : RuleIndex} {c : Char} {a : Alternatives}
    (h : index.candidates? c = some a) : index.rulesFor c = a.toList := by
  rw [rulesFor, h]

theorem rulesFor_cons (d : Char) (a : Alternatives) (gs : List (Char × Alternatives)) (c : Char) :
    rulesFor ⟨(d, a) :: gs⟩ c = if c = d then a.toList else rulesFor ⟨gs⟩ c := by
  by_cases h : c = d
  · subst h
    rw [if_pos rfl, rulesFor, candidates?, List.lookup_cons_self]
  · have hc : (c == d) = false := beq_false_of_ne h
    simp only [rulesFor, candidates?, List.lookup_cons, hc, if_neg h]

theorem rulesFor_insert (r : Rule) (gs : List (Char × Alternatives)) (c : Char) :
    rulesFor ⟨insert r gs⟩ c = rulesFor ⟨gs⟩ c ++ if r.input = c then [r] else [] := by
  induction gs with
  | nil =>
    rw [insert, rulesFor_cons]
    by_cases h : r.input = c
    · subst h
      simp [rulesFor, candidates?, Alternatives.toList]
    · simp [rulesFor, candidates?, h, Ne.symm h]
  | cons g gs ih =>
    obtain ⟨d, a⟩ := g
    rw [insert]
    by_cases hd : d = r.input
    · rw [if_pos hd, rulesFor_cons, rulesFor_cons]
      by_cases hc : c = d
      · simp [hc, hd, Alternatives.push, Alternatives.toList]
      · simp [hc, ← hd, Ne.symm hc]
    · rw [if_neg hd, rulesFor_cons, rulesFor_cons, ih]
      by_cases hc : c = d
      · simp [hc, Ne.symm hd]
      · simp [hc]

theorem ofRules_concat (rules : List Rule) (r : Rule) :
    ofRules (rules ++ [r]) = ⟨insert r (ofRules rules).groups⟩ := by
  simp only [ofRules, List.foldl_append, List.foldl_cons, List.foldl_nil]

theorem rulesFor_ofRules (rules : List Rule) (c : Char) :
    (ofRules rules).rulesFor c = rules.filter (·.input = c) := by
  induction rules using List.reverseRecOn with
  | nil => rfl
  | append_singleton rules r ih =>
    rw [ofRules_concat, rulesFor_insert, ih, List.filter_append]
    by_cases h : r.input = c <;> simp [h]

end RuleIndex

namespace Grammar

variable {g : Grammar} {c : Char} {a : Alternatives} {r : Rule}

theorem mem_candidates_iff (h : g.index.candidates? c = some a) :
    r ∈ a.toList ↔ r ∈ g.rules ∧ r.input = c := by
  rw [← RuleIndex.rulesFor_of_candidates h, index, RuleIndex.rulesFor_ofRules, List.mem_filter,
    decide_eq_true_iff]

theorem candidates_eq_none (h : ∀ r ∈ g.rules, r.input ≠ c) : g.index.candidates? c = none := by
  rw [Option.eq_none_iff_forall_ne_some]
  intro a ha
  have hm := (mem_candidates_iff ha).mp (List.mem_cons_self : a.first ∈ a.toList)
  exact h _ hm.1 hm.2

theorem forall_ne_of_candidates (h : g.index.candidates? c = none) :
    ∀ r ∈ g.rules, r.input ≠ c := by
  have hnone : g.index.rulesFor c = [] := by rw [RuleIndex.rulesFor, h]
  rw [index, RuleIndex.rulesFor_ofRules, List.filter_eq_nil_iff] at hnone
  simpa using hnone

end Grammar

section Choice

variable {α β ρ : Type} [Scalar α]

theorem Selection.mem_of_firstAbove? {weight : β → α} {point sum : α} {items : List β} {b : β}
    (h : firstAbove? weight point sum items = some b) : b ∈ items := by
  induction items generalizing sum with
  | nil => cases h
  | cons x rest ih =>
    simp only [firstAbove?] at h
    split at h
    · cases h
      exact List.mem_cons_self
    · exact List.mem_cons_of_mem x (ih h)

theorem Selection.choose_mem [RandomSource ρ α] (weight : β → α) (first : β) (rest : List β)
    (source : ρ) : (choose weight first rest source).1 ∈ first :: rest := by
  simp only [choose]
  split
  · exact List.mem_cons_self
  · simp only
    cases h : firstAbove? weight _ 0 (first :: rest) with
    | none => exact List.mem_cons_self
    | some b => exact mem_of_firstAbove? h

theorem Alternatives.choose_mem [RandomSource ρ Float] (a : Alternatives) (source : ρ) :
    (a.choose source).1 ∈ a.toList :=
  Selection.choose_mem Rule.weight a.first a.rest source

end Choice

end Arbor
