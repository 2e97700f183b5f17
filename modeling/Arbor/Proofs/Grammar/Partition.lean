import Arbor.Grammar.Catalog
import Arbor.Proofs.Grammar.Index
import Arbor.Random.Xorshift
import Mathlib.Algebra.BigOperators.Group.Finset.Basic

/-! # The index partitions the rules

Inserting a rule adds a group for its symbol if there is none, and changes no other group. So the
index has one group for each symbol that is rewritten, and every rule of the grammar is in one
group, once.
-/

namespace Arbor

namespace RuleIndex

variable {groups : List (Char × Alternatives)} {rules : List Rule} {c : Char} {a : Alternatives}

def symbols (index : RuleIndex) : List Char := index.groups.map Prod.fst

theorem symbols_insert (r : Rule) (groups : List (Char × Alternatives)) :
    symbols ⟨insert r groups⟩ =
      if r.input ∈ symbols ⟨groups⟩ then symbols ⟨groups⟩ else symbols ⟨groups⟩ ++ [r.input] := by
  simp only [symbols]
  fun_induction insert r groups with
  | case1 => simp
  | case2 => simp
  | case3 c a rest hne ih =>
    rw [List.map_cons, ih]
    by_cases h : r.input ∈ rest.map Prod.fst <;> simp [h, Ne.symm hne]

theorem mem_symbols_ofRules : c ∈ (ofRules rules).symbols ↔ c ∈ rules.map Rule.input := by
  induction rules using List.reverseRecOn with
  | nil => rfl
  | append_singleton rules r ih =>
    rw [ofRules_concat, symbols_insert, List.map_append, List.mem_append, ← ih]
    by_cases h : r.input ∈ (ofRules rules).symbols
    · rw [if_pos h]
      constructor
      · exact Or.inl
      · rintro (hc | hc)
        · exact hc
        · rwa [List.mem_singleton.mp hc]
    · rw [if_neg h, List.mem_append]
      rfl

theorem nodup_symbols_ofRules (rules : List Rule) : (ofRules rules).symbols.Nodup := by
  induction rules using List.reverseRecOn with
  | nil => exact List.nodup_nil
  | append_singleton rules r ih =>
    rw [ofRules_concat, symbols_insert]
    split
    · exact ih
    · next h =>
      rw [← List.concat_eq_append]
      exact ih.concat h

theorem mem_groups_iff (h : (symbols ⟨groups⟩).Nodup) :
    (c, a) ∈ groups ↔ candidates? ⟨groups⟩ c = some a := by
  refine ⟨fun hmem => ?_, mem_groups_of_candidates⟩
  induction groups with
  | nil => cases hmem
  | cons g rest ih =>
    obtain ⟨d, b⟩ := g
    obtain ⟨hd, hrest⟩ := List.nodup_cons.mp h
    rcases List.mem_cons.mp hmem with heq | hin
    · cases heq
      exact List.lookup_cons_self
    · have hne : c ≠ d := by
        rintro rfl
        exact hd (List.mem_map.mpr ⟨(c, a), hin, rfl⟩)
      rw [candidates?, List.lookup_cons, beq_false_of_ne hne]
      exact ih hrest hin

theorem symbolCount_ofRules (rules : List Rule) :
    (ofRules rules).symbolCount = (rules.map Rule.input).toFinset.card := by
  have hset : (ofRules rules).symbols.toFinset = (rules.map Rule.input).toFinset := by
    ext c
    rw [List.mem_toFinset, List.mem_toFinset, mem_symbols_ofRules]
  rw [← hset, List.toFinset_card_of_nodup (nodup_symbols_ofRules rules), symbols, List.length_map,
    symbolCount]

theorem length_rulesFor_ofRules (rules : List Rule) (c : Char) :
    ((ofRules rules).rulesFor c).length = (rules.map Rule.input).count c := by
  rw [rulesFor_ofRules, ← List.countP_eq_length_filter, List.count, List.countP_map]
  rfl

theorem sum_length_rulesFor (rules : List Rule) :
    ∑ c ∈ (rules.map Rule.input).toFinset, ((ofRules rules).rulesFor c).length = rules.length := by
  simp only [length_rulesFor_ofRules, List.sum_toFinset_count_eq_length, List.length_map]

theorem candidates_ofRules_eq_some_iff :
    (ofRules rules).candidates? c = some a ↔ rules.filter (·.input = c) = a.toList := by
  rw [← rulesFor_ofRules]
  constructor
  · exact rulesFor_of_candidates
  · intro h
    cases hb : (ofRules rules).candidates? c with
    | none =>
      rw [rulesFor, hb] at h
      cases h
    | some b =>
      rw [rulesFor_of_candidates hb] at h
      cases a
      cases b
      cases h
      rfl

end RuleIndex

namespace Grammar

/-- Looking up a symbol gives the rules for it, in the order of the grammar, and nothing if there
are none. There are as many groups as symbols that are rewritten, and together they have as many
rules as the grammar. A group begins with a rule for its symbol, and every choice is one. -/
theorem index_partitions_rules (g : Grammar) :
    (∀ c, g.index.candidates? c = none ↔ ∀ r ∈ g.rules, r.input ≠ c) ∧
    (∀ c a, g.index.candidates? c = some a ↔ g.rules.filter (·.input = c) = a.first :: a.rest) ∧
    (∀ c a, (c, a) ∈ g.index.groups ↔ g.index.candidates? c = some a) ∧
    (∀ c, g.index.rulesFor c = g.rules.filter (·.input = c) ∧
      g.index.rulesFor c = ((g.index.candidates? c).map Alternatives.toList).getD []) ∧
    g.index.symbolCount = (g.rules.map Rule.input).toFinset.card ∧
    ∑ c ∈ (g.rules.map Rule.input).toFinset, (g.index.rulesFor c).length = g.rules.length ∧
    ∀ c a, g.index.candidates? c = some a →
      (a.first ∈ g.rules ∧ a.first.input = c) ∧
      ∀ {ρ : Type} [RandomSource ρ Float] (source : ρ),
        (a.choose source).1 ∈ g.rules ∧ (a.choose source).1.input = c := by
  refine ⟨fun c => ⟨forall_ne_of_candidates, candidates_eq_none⟩,
    fun c a => RuleIndex.candidates_ofRules_eq_some_iff,
    fun c a => RuleIndex.mem_groups_iff (RuleIndex.nodup_symbols_ofRules g.rules),
    fun c => ⟨RuleIndex.rulesFor_ofRules g.rules c, ?_⟩, RuleIndex.symbolCount_ofRules g.rules,
    RuleIndex.sum_length_rulesFor g.rules, fun c a h => ⟨?_, fun source => ?_⟩⟩
  · unfold RuleIndex.rulesFor
    cases g.index.candidates? c <;> rfl
  · exact (mem_candidates_iff h).mp List.mem_cons_self
  · exact (mem_candidates_iff h).mp (a.choose_mem source)

theorem index_partitions_rules_meadow :
    ∃ a, meadow.index.candidates? 'F' = some a ∧ a.toList.length = 2 ∧
      meadow.index.symbolCount = 2 ∧ (a.choose Xorshift.default).1 ∈ meadow.rules ∧
      (a.choose Xorshift.default).1.input = 'F' := by
  obtain ⟨-, -, -, -, hcount, -, hmem⟩ := index_partitions_rules meadow
  have h : meadow.index.candidates? 'F' = some ⟨meadowRules[0], [meadowRules[1]]⟩ := rfl
  obtain ⟨-, hchoose⟩ := hmem 'F' _ h
  exact ⟨_, h, rfl, hcount.trans (by decide), hchoose Xorshift.default⟩

end Grammar

end Arbor
