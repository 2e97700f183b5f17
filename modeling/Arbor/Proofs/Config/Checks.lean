import Arbor.Config.Basic

/-! # Checks of a run's parameters

Checks that follow each other end with the first fault. Whatever the checks of a run's
parameters refuse, they refuse for a fault of these parameters and never for a fault of a
grammar or of an identifier.
-/

namespace Arbor

section Bind

variable {ε α β : Type} {x : Except ε α} {f : α → Except ε β}

theorem bind_eq_ok_iff {b : β} : x >>= f = .ok b ↔ ∃ a, x = .ok a ∧ f a = .ok b := by
  constructor
  · intro h
    cases x with
    | error e => cases h
    | ok a => exact ⟨a, rfl, h⟩
  · rintro ⟨a, rfl, h⟩
    exact h

theorem bind_eq_error_iff {e : ε} :
    x >>= f = .error e ↔ x = .error e ∨ ∃ a, x = .ok a ∧ f a = .error e := by
  constructor
  · intro h
    cases x with
    | error e' =>
      cases h
      exact Or.inl rfl
    | ok a => exact Or.inr ⟨a, rfl, h⟩
  · rintro (rfl | ⟨a, rfl, h⟩)
    · rfl
    · exact h

end Bind

def ConfigError.concernsParams : ConfigError → Bool
  | negativeIterations _ | iterationsOutOfRange _ | tooManyIterations _ _ | malformedSeed _ _
  | parameter _ _ | zeroDirection => true
  | emptyRules | emptyStart | ruleInput _ _ | weight _ _ _ | color _ | unknownGrammar _ => false

variable {e : ConfigError}

namespace Turtle

theorem concernsParams_of_requireFinite {which : Parameter} {x : Float}
    (h : requireFinite which x = .error e) : e.concernsParams = true := by
  unfold requireFinite at h
  split at h
  · cases h
  · cases h
    rfl

theorem concernsParams_of_requireFiniteVector {which : Parameter} {v : Vec3 Float}
    (h : requireFiniteVector which v = .error e) : e.concernsParams = true := by
  unfold requireFiniteVector at h
  split at h
  · cases h
  · cases h
    rfl

theorem concernsParams_of_validated {s : State Float} (h : s.validated = .error e) :
    e.concernsParams = true := by
  simp only [State.validated, bind_eq_error_iff] at h
  rcases h with h | ⟨_, _, h | ⟨_, _, h⟩⟩
  · exact concernsParams_of_requireFiniteVector h
  · exact concernsParams_of_requireFiniteVector h
  · split at h
    · cases h
      rfl
    · simp only [bind_eq_error_iff] at h
      rcases h with h | ⟨_, _, h | ⟨_, _, h | ⟨_, _, h⟩⟩⟩
      · exact concernsParams_of_requireFinite h
      · exact concernsParams_of_requireFinite h
      · exact concernsParams_of_requireFinite h
      · cases h

theorem Params.concernsParams_of_requirePositive {which : Parameter} {x : Float}
    (h : requirePositive which x = .error e) : e.concernsParams = true := by
  unfold requirePositive at h
  split at h
  · cases h
    rfl
  · cases h

theorem Params.concernsParams_of_validate {p : Params Float} (h : p.validate = .error e) :
    e.concernsParams = true := by
  simp only [Params.validate, bind_eq_error_iff] at h
  rcases h with h | ⟨_, _, h | ⟨_, _, h⟩⟩
  · exact concernsParams_of_requirePositive h
  · exact concernsParams_of_requirePositive h
  · exact concernsParams_of_requireFinite h

end Turtle

theorem Limits.concernsParams_of_checkIterations {l : Limits} {n : Nat}
    (h : l.checkIterations n = .error e) : e.concernsParams = true := by
  unfold checkIterations at h
  split at h
  · cases h
    rfl
  · cases h

namespace Generation.Params

theorem concernsParams_of_iterationsOf {n : Int} (h : iterationsOf n = .error e) :
    e.concernsParams = true := by
  unfold iterationsOf at h
  split at h
  · cases h
    rfl
  · split at h
    · cases h
      rfl
    · cases h

theorem concernsParams_of_generatorOf {seed : String} (h : generatorOf seed = .error e) :
    e.concernsParams = true := by
  unfold generatorOf at h
  split at h
  · cases h
  · cases h
    rfl

theorem concernsParams_of_validate {p : Params} (h : p.validate = .error e) :
    e.concernsParams = true := by
  simp only [validate, bind_eq_error_iff] at h
  rcases h with h | ⟨_, _, h | ⟨_, _, h | ⟨_, _, h | ⟨_, _, h⟩⟩⟩⟩
  · exact Limits.concernsParams_of_checkIterations h
  · exact Turtle.Params.concernsParams_of_validate h
  · exact Turtle.concernsParams_of_validated h
  · exact concernsParams_of_generatorOf h
  · cases h

theorem validate_eq_ok_iff {p : Params} {generator : Xorshift} {initial : Turtle.State Float} :
    p.validate = .ok (generator, initial) ↔
      p.limits.checkIterations p.iterations = .ok () ∧ p.turtle.validate = .ok () ∧
        p.initial.validated = .ok initial ∧ generatorOf p.seed = .ok generator := by
  simp only [validate, bind_eq_ok_iff]
  constructor
  · rintro ⟨_, hn, _, ht, s, hs, g, hg, h⟩
    cases h
    exact ⟨hn, ht, hs, hg⟩
  · rintro ⟨hn, ht, hs, hg⟩
    exact ⟨(), hn, (), ht, initial, hs, generator, hg, rfl⟩

end Generation.Params

namespace Settings

variable {s : Settings} {limits : Limits}

theorem concernsParams_of_toParams (h : s.toParams limits = .error e) :
    e.concernsParams = true := by
  simp only [toParams, bind_eq_error_iff] at h
  rcases h with h | ⟨_, _, h | ⟨_, _, h | ⟨_, _, h⟩⟩⟩
  · exact Generation.Params.concernsParams_of_iterationsOf h
  · exact Turtle.concernsParams_of_validated h
  · exact Generation.Params.concernsParams_of_validate h
  · cases h

theorem toParams_eq_ok_iff {params : Generation.Params} :
    s.toParams limits = .ok params ↔ ∃ n initial,
      Generation.Params.iterationsOf s.iterations = .ok n ∧ s.initial.validated = .ok initial ∧
        params = ⟨n, s.seed, initial, s.turtle, limits⟩ ∧
        ∃ started, params.validate = .ok started := by
  simp only [toParams, bind_eq_ok_iff]
  constructor
  · rintro ⟨n, hn, initial, hi, started, hv, h⟩
    cases h
    exact ⟨n, initial, hn, hi, rfl, started, hv⟩
  · rintro ⟨n, initial, hn, hi, rfl, started, hv⟩
    exact ⟨n, hn, initial, hi, started, hv, rfl⟩

end Settings

end Arbor
