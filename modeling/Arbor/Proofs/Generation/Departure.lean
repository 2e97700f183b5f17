import Arbor.Proofs.Config.Checks
import Arbor.Proofs.Generation.AllOrNothing
import Arbor.Proofs.Growth.Outcome

/-! # Departures

A run whose parameters pass their checks departs with the generator of its seed and the
checked turtle, unless its growth finds no room. How the departure ends is how the run
ends.
-/

namespace Arbor

theorem Limits.checkIterations_eq_ok_iff {l : Limits} {n : Nat} :
    l.checkIterations n = .ok () ↔ n ≤ l.maxIterations := by
  unfold checkIterations
  split
  · simp only [reduceCtorEq, false_iff]
    omega
  · simp only [true_iff]
    omega

namespace Generation

open Turtle

variable {g : Grammar} {p : Params} {generator : Xorshift} {initial : State Float}

theorem iterations_le_of_validate (h : p.validate = .ok (generator, initial)) :
    p.iterations ≤ p.limits.maxIterations :=
  Limits.checkIterations_eq_ok_iff.mp (Params.validate_eq_ok_iff.mp h).1

theorem grow_of_validate (h : p.validate = .ok (generator, initial)) :
    grow g p = .ok ⟨g.index.grow p.limits g.start p.iterations generator, initial⟩ := by
  rw [grow, h]
  rfl

theorem grow_eq_ok_iff {grown : Grown} :
    grow g p = .ok grown ↔ ∃ generator, p.validate = .ok (generator, grown.initial) ∧
      grown.growth = g.index.grow p.limits g.start p.iterations generator := by
  constructor
  · intro h
    simp only [grow, bind_eq_ok_iff] at h
    obtain ⟨⟨generator, initial⟩, hv, h⟩ := h
    cases h
    exact ⟨generator, hv, rfl⟩
  · rintro ⟨generator, hv, hg⟩
    rw [grow_of_validate hv, ← hg]

theorem departure_of_validate (h : p.validate = .ok (generator, initial)) :
    departure g p = (g.index.grow p.limits g.start p.iterations generator).outcome.map
      fun word => (⟨.ofState initial,
        (g.index.grow p.limits g.start p.iterations generator).source⟩, word) := by
  simp only [departure, grow_of_validate h]
  cases (g.index.grow p.limits g.start p.iterations generator).outcome <;> rfl

theorem departure_of_validate_error {e : ConfigError} (h : p.validate = .error e) :
    departure g p = .error (.config e) := by
  rw [departure, grow, h]
  rfl

theorem run_eq_error_iff {e : GenerationError} :
    run g p = .error e ↔ departure g p = .error e := by
  constructor
  · intro h
    cases hd : departure g p with
    | error e' =>
      rw [(run_of_error hd).1] at h
      cases h
      rfl
    | ok departed =>
      rw [(run_of_ok hd).1] at h
      cases h
  · intro h
    exact (run_of_error h).1

theorem run_eq_ok_iff {r : Recorded} :
    run g p = .ok r ↔ ∃ start word, departure g p = .ok (start, word) ∧
      r = ⟨.ofWalk p.turtle start word, (start.drawn p.turtle word).toArray⟩ := by
  constructor
  · intro h
    cases hd : departure g p with
    | error e =>
      rw [(run_of_error hd).1] at h
      cases h
    | ok departed =>
      rw [(run_of_ok hd).1] at h
      cases h
      exact ⟨_, _, rfl, rfl⟩
  · rintro ⟨start, word, hd, rfl⟩
    exact (run_of_ok hd).1

theorem exists_grow_of_run_ok {r : Recorded} (h : run g p = .ok r) :
    ∃ grown, grow g p = .ok grown ∧ grown.growth.outcome = .ok r.word ∧
      r.events = ((⟨.ofState grown.initial, grown.growth.source⟩ :
        Walker Float Xorshift).drawn p.turtle r.word).toArray := by
  obtain ⟨start, word, hd, rfl⟩ := run_eq_ok_iff.mp h
  obtain ⟨grown, hg, ho, rfl⟩ := departure_eq_ok_iff.mp hd
  exact ⟨grown, hg, ho, rfl⟩

theorem exists_grow_of_expansionTooLarge {k limit : Nat}
    (h : run g p = .error (.expansionTooLarge k limit)) :
    ∃ grown, grow g p = .ok grown ∧
      grown.growth.outcome = .error (.expansionTooLarge k limit) := by
  have hd := run_eq_error_iff.mp h
  unfold departure at hd
  cases hg : grow g p with
  | error e =>
    rw [hg] at hd
    cases hd
  | ok grown =>
    rw [hg] at hd
    cases ho : grown.growth.outcome with
    | ok word =>
      simp only [ho] at hd
      cases hd
    | error e =>
      simp only [ho] at hd
      cases hd
      exact ⟨grown, rfl, ho⟩

/-- A run departs with the last word of the unlimited growth and the generator that this
leaves, if the parameters pass their checks and there is room for the word. -/
theorem departure_eq_ok_iff_generation {start : Walker Float Xorshift} {word : Word} :
    departure g p = .ok (start, word) ↔ ∃ generator initial,
      p.validate = .ok (generator, initial) ∧
        (g.index.generation g.start generator p.iterations).1.length ≤ p.limits.maxSymbols ∧
        (g.index.generation g.start generator p.iterations).1 = word ∧
        start = ⟨.ofState initial, (g.index.generation g.start generator p.iterations).2⟩ := by
  constructor
  · intro h
    obtain ⟨⟨growth, initial⟩, hg, ho, rfl⟩ := departure_eq_ok_iff.mp h
    obtain ⟨generator, hv, rfl⟩ := grow_eq_ok_iff.mp hg
    obtain ⟨hn, hle, hw⟩ := RuleIndex.outcome_grow_eq_ok_iff.mp ho
    refine ⟨generator, initial, hv, hle, hw, ?_⟩
    rw [(RuleIndex.grow_of_le hn hle).2]
  · rintro ⟨generator, initial, hv, hle, rfl, rfl⟩
    have hn := iterations_le_of_validate hv
    rw [departure_of_validate hv, (RuleIndex.grow_of_le hn hle).1, (RuleIndex.grow_of_le hn hle).2]
    rfl

theorem exists_run_of_isOk (h : (departure g p).isOk = true) : ∃ r, run g p = .ok r := by
  obtain ⟨departed, hd⟩ := exists_eq_ok_of_isOk h
  exact ⟨_, (run_of_ok hd).1⟩

theorem departure_cases (g : Grammar) (h : p.validate = .ok (generator, initial)) :
    (∃ departed, departure g p = .ok departed) ∨
      ∃ k ≤ p.iterations, departure g p = .error (.expansionTooLarge k p.limits.maxSymbols) := by
  rw [departure_of_validate h]
  rcases g.index.outcome_grow_cases g.start generator
    (iterations_le_of_validate h) with ho | ⟨k, hk, ho⟩
  · rw [ho]
    exact Or.inl ⟨_, rfl⟩
  · rw [ho]
    exact Or.inr ⟨k, hk, rfl⟩

end Generation

end Arbor
