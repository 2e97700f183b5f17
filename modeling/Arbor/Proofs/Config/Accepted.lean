import Arbor.Proofs.Config.Resolve
import Arbor.Proofs.Generation.Departure

/-! # Resolved runs start

Resolving a run ends with the very check that the run begins with, so that a resolved run
never fails for its parameters. Without an identifier it does not fail for an unknown
grammar either.
-/

namespace Arbor.Config

variable {c : Config} {overrides : Overrides} {environmentSeed : Option String}

theorem resolve_eq_ok_iff {entry : Entry} {params : Generation.Params} :
    c.resolve overrides environmentSeed = .ok (entry, params) ↔
      c.select overrides.grammar = .ok entry ∧
        Settings.toParams { c.settings with
          iterations := overrides.iterations.getD c.settings.iterations
          seed := (overrides.seed.or environmentSeed).getD c.settings.seed } c.limits =
            .ok params := by
  simp only [resolve, bind_eq_ok_iff]
  constructor
  · rintro ⟨_, he, _, hp, h⟩
    cases h
    exact ⟨he, hp⟩
  · rintro ⟨he, hp⟩
    exact ⟨entry, he, params, hp, rfl⟩

theorem checked_of_resolve {entry : Entry} {params : Generation.Params}
    (h : c.resolve overrides environmentSeed = .ok (entry, params)) :
    params.limits = c.limits ∧ ∃ generator initial, params.validate = .ok (generator, initial) := by
  obtain ⟨n, initial, _, _, rfl, started, hv⟩ :=
    Settings.toParams_eq_ok_iff.mp (resolve_eq_ok_iff.mp h).2
  exact ⟨rfl, started.1, started.2, hv⟩

theorem concernsParams_of_resolve {e : ConfigError} (hc : c.grammars ≠ [])
    (hg : overrides.grammar = none) (h : c.resolve overrides environmentSeed = .error e) :
    e.concernsParams = true := by
  obtain ⟨entry, rest, hc⟩ := List.exists_cons_of_ne_nil hc
  have hs : c.select overrides.grammar = .ok entry := by
    simp only [hg, select, hc, List.head?_cons]
  simp only [resolve, hs, bind_eq_error_iff] at h
  rcases h with h | ⟨_, _, h | ⟨_, _, h⟩⟩
  · cases h
  · exact Settings.concernsParams_of_toParams h
  · cases h

/-- A resolved run ends well or finds no room for its symbols, whatever its sink is. A
run without an identifier is not refused for one. -/
theorem resolved_run_starts (c : Config) (overrides : Overrides)
    (environmentSeed : Option String) :
    (∀ entry params, c.resolve overrides environmentSeed = .ok (entry, params) →
      ∀ (σ : Type) (emit : σ → Event Float → σ) (sink : σ),
        (∃ finished, (Generation.stream entry.grammar params emit sink).1 = .ok finished) ∨
          ∃ k ≤ params.iterations, (Generation.stream entry.grammar params emit sink).1 =
            .error (.expansionTooLarge k c.limits.maxSymbols)) ∧
    (c.Loaded → overrides.grammar = none →
      ∀ id, c.resolve overrides environmentSeed ≠ .error (.unknownGrammar id)) := by
  constructor
  · intro entry params h σ emit sink
    obtain ⟨hl, generator, initial, hv⟩ := checked_of_resolve h
    rcases Generation.departure_cases entry.grammar hv with ⟨departed, hd⟩ | ⟨k, hk, hd⟩
    · exact Or.inl ⟨_, congrArg Prod.fst (Generation.stream_of_ok hd emit sink)⟩
    · rw [hl] at hd
      exact Or.inr ⟨k, hk, congrArg Prod.fst (Generation.stream_of_error hd emit sink)⟩
  · intro hc hg id h
    have hp := concernsParams_of_resolve hc.grammars_ne_nil hg h
    cases hp

theorem resolved_run_starts_builtin :
    Config.builtin.Loaded ∧
    (∃ entry params, Config.builtin.resolve ⟨none, some 2, none⟩ none = .ok (entry, params) ∧
      ((∃ finished,
          (Generation.stream entry.grammar params (fun n _ => n + 1) 0).1 = .ok finished) ∨
        ∃ k ≤ params.iterations, (Generation.stream entry.grammar params (fun n _ => n + 1) 0).1 =
          .error (.expansionTooLarge k Config.builtin.limits.maxSymbols))) ∧
    ∀ id, Config.builtin.resolve ⟨none, some 99, none⟩ none ≠ .error (.unknownGrammar id) := by
  have hr : (Config.builtin.resolve ⟨none, some 2, none⟩ none).isOk = true := by decide +kernel
  obtain ⟨⟨entry, params⟩, h⟩ := exists_eq_ok_of_isOk hr
  exact ⟨.builtin, ⟨entry, params, h,
    (resolved_run_starts Config.builtin _ none).1 entry params h Nat (fun n _ => n + 1) 0⟩,
    (resolved_run_starts Config.builtin _ none).2 .builtin rfl⟩

end Arbor.Config
