import Arbor.Config.Reading
import Arbor.Proofs.Generation.AllOrNothing

/-! # Resolved runs

A run that is resolved from a configuration, overrides and the environment either keeps
everything or its events only, with the same outcome.
-/

namespace Arbor.Config

variable {c : Config}

/-- The configurations that the program works with. -/
inductive Loaded : Config → Prop where
  | builtin : Loaded .builtin
  | ofYaml {c : Config} {text : String} : Config.ofYaml text = .ok c → Loaded c

theorem Loaded.grammars_ne_nil (h : Loaded c) : c.grammars ≠ [] := by
  cases h with
  | builtin => exact List.cons_ne_nil _ _
  | @ofYaml c text h =>
    simp only [Config.ofYaml, bind, Except.bind] at h
    split at h
    · cases h
    · split at h
      · cases h
      · split at h
        · cases h
        · next hn =>
          cases h
          simpa using hn

def recorded (c : Config) (overrides : Overrides) (environmentSeed : Option String) :
    Except GenerationError (Entry × Generation.Params × Generation.Recorded) :=
  match c.resolve overrides environmentSeed with
  | .error e => .error (.config e)
  | .ok (entry, params) =>
    match Generation.run entry.grammar params with
    | .error e => .error e
    | .ok recorded => .ok (entry, params, recorded)

def events (c : Config) (overrides : Overrides) (environmentSeed : Option String) :
    Except GenerationError (List (Event Float)) :=
  match c.resolve overrides environmentSeed with
  | .error e => .error (.config e)
  | .ok (entry, params) =>
    match Generation.events entry.grammar params with
    | .error e => .error e
    | .ok events => .ok events.toList

theorem events_eq_map_recorded (overrides : Overrides) (environmentSeed : Option String) :
    c.events overrides environmentSeed =
      (c.recorded overrides environmentSeed).map (·.2.2.events.toList) := by
  unfold events recorded
  cases c.resolve overrides environmentSeed with
  | error e => rfl
  | ok resolved =>
    obtain ⟨entry, params⟩ := resolved
    cases h : Generation.departure entry.grammar params with
    | error e =>
      obtain ⟨hr, hv, _⟩ := Generation.run_of_error h
      simp only [hr, hv]
      rfl
    | ok departed =>
      obtain ⟨hr, hv, _⟩ := Generation.run_of_ok h
      simp only [hr, hv]
      rfl

theorem resolve_defaults {entry : Entry} {rest : List Entry} (h : c.grammars = entry :: rest)
    (seed environmentSeed environmentSeed' : Option String) :
    c.resolve ⟨some entry.id, some c.settings.iterations,
        some ((seed.or environmentSeed).getD c.settings.seed)⟩ environmentSeed' =
      c.resolve ⟨none, none, seed⟩ environmentSeed := by
  have hs : c.select (some entry.id) = c.select none := by
    simp [select, find, h]
  simp only [resolve, hs, Option.getD_some, Option.getD_none, Option.some_or]

end Arbor.Config
