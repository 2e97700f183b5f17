import Arbor.Proofs.Growth.Unlimited

/-! # How a limited growth ends

A growth that may run its passes ends with the last word of the unlimited growth or
because of the first word that is too long, and with nothing else. So its end is told
by the words of the unlimited growth alone. A pass that is given up leaves the source
behind the shortest part of the word whose rewrite there is no room for.
-/

namespace Arbor.RuleIndex

variable {ρ ρ' : Type} [RandomSource ρ Float] [RandomSource ρ' Float] {index index' : RuleIndex}
  {limits : Limits} {start : Word} {n : Nat} {source : ρ} {source' : ρ'}

theorem outcome_grow_cases (index : RuleIndex) (start : Word) (source : ρ)
    (hn : n ≤ limits.maxIterations) :
    (index.grow limits start n source).outcome = .ok (index.generation start source n).1 ∨
      ∃ k ≤ n, (index.grow limits start n source).outcome =
        .error (.expansionTooLarge k limits.maxSymbols) := by
  rcases exists_isLeast_or_length_le index limits start n source with ⟨k, hk⟩ | h
  · exact Or.inr ⟨k, hk.1.1, grow_of_isLeast hn hk⟩
  · exact Or.inl (grow_of_le hn h).1

/-- A growth ends well exactly when its passes are allowed and there is room for the last word
of the unlimited growth. -/
theorem outcome_grow_eq_ok_iff {word : Word} :
    (index.grow limits start n source).outcome = .ok word ↔
      n ≤ limits.maxIterations ∧ (index.generation start source n).1.length ≤ limits.maxSymbols ∧
        (index.generation start source n).1 = word := by
  constructor
  · intro h
    rcases Nat.lt_or_ge limits.maxIterations n with hn | hn
    · rw [grow_of_lt_iterations hn] at h
      cases h
    · rcases exists_isLeast_or_length_le index limits start n source with ⟨k, hk⟩ | hle
      · rw [grow_of_isLeast hn hk] at h
        cases h
      · rw [(grow_of_le hn hle).1] at h
        cases h
        exact ⟨hn, hle, rfl⟩
  · rintro ⟨hn, hle, rfl⟩
    exact (grow_of_le hn hle).1

theorem outcome_grow_congr
    (h : ∀ k, (index.generation start source k).1 = (index'.generation start source' k).1) :
    (index.grow limits start n source).outcome = (index'.grow limits start n source').outcome := by
  rcases Nat.lt_or_ge limits.maxIterations n with hn | hn
  · rw [grow_of_lt_iterations hn, grow_of_lt_iterations hn]
  · rcases exists_isLeast_or_length_le index limits start n source with ⟨k, hk⟩ | hle
    · have hk' := hk
      simp only [h] at hk'
      rw [grow_of_isLeast hn hk, grow_of_isLeast hn hk']
    · have hle' := hle
      rw [h n] at hle'
      rw [(grow_of_le hn hle).1, (grow_of_le hn hle').1, h n]

/-! ## A pass that is given up -/

theorem rewriteAll_append (index : RuleIndex) (u v : Word) (source : ρ) :
    index.rewriteAll (u ++ v) source =
      ((index.rewriteAll u source).1 ++ (index.rewriteAll v (index.rewriteAll u source).2).1,
        (index.rewriteAll v (index.rewriteAll u source).2).2) := by
  induction u generalizing source with
  | nil => rfl
  | cons c u ih => simp only [List.cons_append, rewriteAll_cons, ih, List.append_assoc]

theorem length_rewriteAll_take_mono (index : RuleIndex) (word : Word) (source : ρ) {i j : Nat}
    (h : i ≤ j) :
    (index.rewriteAll (word.take i) source).1.length ≤
      (index.rewriteAll (word.take j) source).1.length := by
  obtain ⟨rest, hr⟩ := List.take_prefix_take_left (l := word) h
  rw [← hr, rewriteAll_append, List.length_append]
  exact Nat.le_add_right _ _

/-- A pass without room for its whole rewrite is given up after the shortest part of the
word whose rewrite is too long. -/
theorem exists_isLeast_of_rewriteWithin (index : RuleIndex) {budget : Nat} {word : Word}
    {source : ρ} (h : budget < (index.rewriteAll word source).1.length) :
    ∃ i, IsLeast {i | budget < (index.rewriteAll (word.take i) source).1.length} i ∧
      index.rewriteWithin budget word [] 0 source =
        (none, (index.rewriteAll (word.take i) source).2) := by
  have h0 : budget < 0 + (index.rewriteAll word source).1.length := by omega
  obtain ⟨before, c, after, rfl, hb, ha, hr⟩ :=
    rewriteWithin_of_lt index word [] source (Nat.zero_le _) h0
  rw [Nat.zero_add] at hb ha
  -- The part that was rewritten ends with the symbol that there was no room for.
  have ht : (before ++ c :: after).take (before.length + 1) = before ++ [c] := by
    rw [List.take_length_add_append]
    rfl
  refine ⟨before.length + 1, ⟨?_, fun i hi => ?_⟩, ?_⟩
  · rw [Set.mem_ofPred_eq, ht]
    exact ha
  · by_contra hlt
    have hle : i ≤ before.length := by omega
    have hm := length_rewriteAll_take_mono index (before ++ c :: after) source hle
    rw [List.take_left] at hm
    rw [Set.mem_ofPred_eq] at hi
    omega
  · rw [hr, ht]

theorem source_grow_of_isLeast {k : Nat} (hn : n ≤ limits.maxIterations)
    (hk : IsLeast {j | j ≤ n ∧
      limits.maxSymbols < (index.generation start source j).1.length} (k + 1)) :
    ∃ i, IsLeast {i | limits.maxSymbols - (index.generation start source k).1.length <
        (index.rewriteAll ((index.generation start source k).1.take i)
          (index.generation start source k).2).1.length} i ∧
      (index.grow limits start n source).source =
        (index.rewriteAll ((index.generation start source k).1.take i)
          (index.generation start source k).2).2 := by
  have hkn : k + 1 ≤ n := hk.1.1
  have hfit : (index.generation start source k).1.length ≤ limits.maxSymbols := by
    by_contra hlt
    have hle : k + 1 ≤ k := hk.2 ⟨by omega, Nat.lt_of_not_le hlt⟩
    omega
  have hlt := hk.1.2
  rw [generation_succ, List.length_append] at hlt
  have hover : limits.maxSymbols - (index.generation start source k).1.length <
      (index.rewriteAll (index.generation start source k).1
        (index.generation start source k).2).1.length := by omega
  obtain ⟨i, hi, hr⟩ := exists_isLeast_of_rewriteWithin index hover
  obtain ⟨_, _, _, _, _, _, sizes, he⟩ := (startsPass_generation hn hkn hfit).sound
  refine ⟨i, hi, ?_⟩
  rw [he, show n + 1 - (k + 1) = n - (k + 1) + 1 by omega]
  simp only [passes, hr]

end Arbor.RuleIndex
