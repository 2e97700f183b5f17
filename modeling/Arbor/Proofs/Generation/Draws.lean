import Arbor.Proofs.Generation.Departure
import Arbor.Proofs.Growth.Draws
import Arbor.Proofs.Turtle.Draws

/-! # What a run draws

A run draws from one generator. The growth takes one draw for each weighted symbol of each
word that it rewrites, and the walk goes on from there with one draw for each turn.
-/

namespace Arbor.Generation

open RandomSource Turtle

variable {g : Grammar} {p : Params} {generator : Xorshift} {initial : State Float}

theorem generator_eq_of_validate (h : p.validate = .ok (generator, initial)) :
    generator = ⟨Xorshift.hash p.seed⟩ := by
  have hg := (Params.validate_eq_ok_iff.mp h).2.2.2
  unfold Params.generatorOf at hg
  split at hg
  · next hs =>
    cases hg
    exact (Xorshift.ofSeed_eq_ok_iff.mp hs).2.2
  · cases hg

def Params.generatorAfter (p : Params) (n : Nat) : Counted Xorshift :=
  ⟨⟨Xorshift.step^[n] (Xorshift.hash p.seed)⟩, n⟩

def wordAfter (g : Grammar) (p : Params) (k : Nat) : Word :=
  (g.index.generation g.start (p.generatorAfter 0).source k).1

/-- The draws of a number of passes: one for each weighted symbol of each word. -/
def passDraws (g : Grammar) (p : Params) (n : Nat) : Nat :=
  ∑ k ∈ Finset.range n, g.index.draws (wordAfter g p k)

def countedGrowth (g : Grammar) (p : Params) : Growth (Counted Xorshift) :=
  g.index.grow p.limits g.start p.iterations (p.generatorAfter 0)

theorem skip_generatorAfter (p : Params) (m n : Nat) :
    skip Float n (p.generatorAfter m) = p.generatorAfter (m + n) := by
  rw [Counted.skip_eq, Xorshift.skip_eq]
  simp only [Params.generatorAfter, Nat.add_comm m n, Function.iterate_add_apply]

theorem generation_generatorAfter (g : Grammar) (p : Params) (k : Nat) :
    (g.index.generation g.start (p.generatorAfter 0) k).1 = wordAfter g p k :=
  (g.index.generation_counted g.start (p.generatorAfter 0) k).1

theorem source_generation_generatorAfter (g : Grammar) (p : Params) (k : Nat) :
    (g.index.generation g.start (p.generatorAfter 0) k).2 = p.generatorAfter (passDraws g p k) := by
  rw [RuleIndex.source_generation, skip_generatorAfter, Nat.zero_add]
  simp only [generation_generatorAfter, passDraws]

theorem growth_eq_countedGrowth {grown : Grown} (h : grow g p = .ok grown) :
    grown.growth.outcome = (countedGrowth g p).outcome ∧
      grown.growth.source = (countedGrowth g p).source.source := by
  obtain ⟨generator, hv, hg⟩ := grow_eq_ok_iff.mp h
  obtain ⟨ho, hs⟩ := g.index.grow_counted p.limits g.start p.iterations (p.generatorAfter 0)
  rw [hg, generator_eq_of_validate hv]
  exact ⟨ho.symm, hs.symm⟩

/-! ## The growth of a run -/

theorem countedGrowth_of_ok {word : Word} (hn : p.iterations ≤ p.limits.maxIterations)
    (h : (countedGrowth g p).outcome = .ok word) :
    word = wordAfter g p p.iterations ∧
      (countedGrowth g p).source = p.generatorAfter (passDraws g p p.iterations) := by
  unfold countedGrowth at h ⊢
  rcases RuleIndex.exists_isLeast_or_length_le g.index p.limits g.start p.iterations
    (p.generatorAfter 0) with ⟨k, hk⟩ | hle
  · rw [RuleIndex.grow_of_isLeast hn hk] at h
    cases h
  · rw [(RuleIndex.grow_of_le hn hle).1, generation_generatorAfter] at h
    cases h
    have hs := RuleIndex.source_grow_of_le hn hle
    simp only [generation_generatorAfter, skip_generatorAfter, Nat.zero_add] at hs
    exact ⟨rfl, hs⟩

theorem countedGrowth_of_error {k limit : Nat} (hn : p.iterations ≤ p.limits.maxIterations)
    (h : (countedGrowth g p).outcome = .error (.expansionTooLarge (k + 1) limit)) :
    ∃ i, IsLeast {i | p.limits.maxSymbols - (wordAfter g p k).length <
        (g.index.rewriteAll ((wordAfter g p k).take i)
          (p.generatorAfter (passDraws g p k)).source).1.length} i ∧
      (countedGrowth g p).source =
        p.generatorAfter (passDraws g p k + g.index.draws ((wordAfter g p k).take i)) := by
  unfold countedGrowth at h ⊢
  rcases RuleIndex.exists_isLeast_or_length_le g.index p.limits g.start p.iterations
    (p.generatorAfter 0) with ⟨m, hm⟩ | hle
  · rw [RuleIndex.grow_of_isLeast hn hm] at h
    cases h
    obtain ⟨i, hi, hs⟩ := RuleIndex.skip_grow_of_isLeast hn hm
    simp only [generation_generatorAfter, source_generation_generatorAfter,
      RuleIndex.rewriteAll_counted] at hi
    simp only [generation_generatorAfter, skip_generatorAfter, Nat.zero_add] at hs
    exact ⟨i, hi, hs⟩
  · rw [(RuleIndex.grow_of_le hn hle).1] at h
    cases h

/-! ## The whole run -/

/-- A run draws from one generator. Its growth takes one draw for each weighted symbol of
each word that it rewrites, its walk goes on with the generator that is left and takes one
draw for each turn. A growth that is given up has taken the draws of the passes before and
of the shortest part of the last word whose rewrite there is no room for. -/
theorem run_draws (g : Grammar) (p : Params) :
    (∀ grown, grow g p = .ok grown → p.initial.validated = .ok grown.initial ∧
      grown.growth.outcome = (countedGrowth g p).outcome ∧
      grown.growth.source = (countedGrowth g p).source.source) ∧
    (∀ r, run g p = .ok r →
      r.word = wordAfter g p p.iterations ∧
      (countedGrowth g p).outcome = .ok r.word ∧
      (countedGrowth g p).source = p.generatorAfter (passDraws g p p.iterations) ∧
      ∃ initial, p.initial.validated = .ok initial ∧
        (walk p.turtle Array.push r.word (⟨.ofState initial,
          ⟨Xorshift.step^[passDraws g p p.iterations] (Xorshift.hash p.seed)⟩⟩ :
            Walker Float Xorshift) #[]).2 = r.events ∧
        (walk p.turtle Array.push r.word (⟨.ofState initial, (countedGrowth g p).source⟩ :
          Walker Float (Counted Xorshift)) #[]).2 = r.events ∧
        ∀ i, let walked := r.word.take i
          (walk p.turtle Array.push walked (⟨.ofState initial, (countedGrowth g p).source⟩ :
            Walker Float (Counted Xorshift)) #[]).1.source =
              p.generatorAfter (passDraws g p p.iterations +
                (walked.count '+' + walked.count '-'))) ∧
    ∀ k limit, run g p = .error (.expansionTooLarge (k + 1) limit) →
      (countedGrowth g p).outcome = .error (.expansionTooLarge (k + 1) limit) ∧
      ∃ i, IsLeast {i | p.limits.maxSymbols - (wordAfter g p k).length <
          (g.index.rewriteAll ((wordAfter g p k).take i)
            (p.generatorAfter (passDraws g p k)).source).1.length} i ∧
        (countedGrowth g p).source =
          p.generatorAfter (passDraws g p k + g.index.draws ((wordAfter g p k).take i)) := by
  refine ⟨fun grown h => ?_, fun r h => ?_, fun k limit h => ?_⟩
  · obtain ⟨generator, hv, _⟩ := grow_eq_ok_iff.mp h
    exact ⟨(Params.validate_eq_ok_iff.mp hv).2.2.1, growth_eq_countedGrowth h⟩
  · obtain ⟨grown, hg, ho, he⟩ := exists_grow_of_run_ok h
    obtain ⟨generator, hv, _⟩ := grow_eq_ok_iff.mp hg
    obtain ⟨hco, hcs⟩ := growth_eq_countedGrowth hg
    rw [ho] at hco
    obtain ⟨hw, hs⟩ := countedGrowth_of_ok (iterations_le_of_validate hv) hco.symm
    refine ⟨hw, hco.symm, hs, grown.initial, (Params.validate_eq_ok_iff.mp hv).2.2.1, ?_, ?_,
      fun i => ?_⟩
    · rw [hcs, hs] at he
      rw [walk_push, he]
      rfl
    · rw [hcs] at he
      rw [walk_push, drawn_counted, he]
      rfl
    · simp only [walk_push, source_after, hs, skip_generatorAfter]
      rfl
  · obtain ⟨grown, hg, ho⟩ := exists_grow_of_expansionTooLarge h
    obtain ⟨generator, hv, _⟩ := grow_eq_ok_iff.mp hg
    rw [(growth_eq_countedGrowth hg).1] at ho
    exact ⟨ho, countedGrowth_of_error (iterations_le_of_validate hv) ho⟩

theorem run_draws_meadow :
    let p : Params := { Params.standard with iterations := 1 }
    let short : Params := { p with limits := ⟨8, 3⟩ }
    (∃ r, run .meadow p = .ok r ∧ (countedGrowth .meadow p).source = p.generatorAfter 1) ∧
    run .meadow short = .error (.expansionTooLarge 1 3) ∧
    ∃ i, (countedGrowth .meadow short).source =
      short.generatorAfter (Grammar.meadow.index.draws ((wordAfter .meadow short 0).take i)) := by
  intro p short
  have hd : passDraws .meadow p 1 = 1 := by decide +kernel
  have hp : (departure .meadow p).isOk = true := by decide +kernel
  have hs : run .meadow short = .error (.expansionTooLarge 1 3) := by
    have h : (match departure .meadow short with
        | .error (.expansionTooLarge k limit) => k == 1 && limit == 3
        | _ => false) = true := by decide +kernel
    rw [run_eq_error_iff]
    split at h
    · next k limit he =>
      rw [he]
      simp only [Bool.and_eq_true, beq_iff_eq] at h
      rw [h.1, h.2]
    · cases h
  refine ⟨?_, hs, ?_⟩
  · obtain ⟨departed, h⟩ := exists_eq_ok_of_isOk hp
    have hr := run_eq_ok_iff.mpr ⟨departed.1, departed.2, h, rfl⟩
    refine ⟨_, hr, ?_⟩
    rw [((run_draws .meadow p).2.1 _ hr).2.2.1]
    exact congrArg p.generatorAfter hd
  · obtain ⟨_, i, _, hi⟩ := (run_draws .meadow short).2.2 0 3 hs
    rw [passDraws, Finset.sum_range_zero, Nat.zero_add] at hi
    exact ⟨i, hi⟩

end Arbor.Generation
