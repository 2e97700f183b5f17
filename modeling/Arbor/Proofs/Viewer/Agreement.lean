import Arbor.Proofs.CommandLine.Generate
import Arbor.Viewer.Frame

/-! # The viewer and the command line

The viewer makes its parameters from its controls, the command line from what the user
asks for and the environment. Controls that say what the user asks for give the same run.
-/

namespace Arbor.Viewer

open CommandLine

/-- The controls of a run, as a user of the command line asks for them. -/
def overrides (v : Viewer) : Overrides := ⟨some v.selected, some v.iterations, some v.seed⟩

theorem runEvents_eq (v : Viewer) (environmentSeed : Option String) :
    v.runEvents = v.config.events v.overrides environmentSeed := by
  simp only [runEvents, Config.events, Config.resolve, Config.select, overrides]
  cases v.config.find v.selected with
  | error e => rfl
  | ok entry =>
    simp only [Option.getD_some, Option.some_or, Except.mapError, bind, Except.bind, pure,
      Except.pure]
    generalize Settings.toParams _ v.config.limits = checked
    cases checked with
    | error e => rfl
    | ok params =>
      simp only
      cases Generation.events entry.grammar params <;> rfl

theorem getLast?_runLabels {v : Viewer} {e : GenerationError} (h : v.lastError = some e) :
    v.runLabels.getLast? = some e.message := by
  unfold runLabels
  rw [h]
  exact List.getLast?_concat

theorem runEvents_first {c : Config} (h : c.grammars ≠ []) (seed environmentSeed : Option String) :
    runEvents (blank c ((c.grammars.head?.map Entry.id).getD "")
        ((seed.or environmentSeed).getD c.settings.seed) c.settings.iterations) =
      c.events ⟨none, none, seed⟩ environmentSeed := by
  obtain ⟨entry, rest, hg⟩ := List.exists_cons_of_ne_nil h
  rw [runEvents_eq _ none]
  simp only [Config.events, overrides, blank, hg, List.head?_cons, Option.map_some,
    Option.getD_some, Config.resolve_defaults hg]

/-- A viewer whose controls say what the user of a command line asks for shows the events
of the same run, or the same failure beside what it showed before. The first run of a
viewer that is opened with a seed is the one of a generating command with that seed. -/
theorem regenerate_agrees_with_command_line (environmentSeed : Option String) :
    (∀ v : Viewer,
      match v.config.events v.overrides environmentSeed with
      | .ok events =>
        v.regenerate = { v with events, summary := .ofEvents events, lastError := none }
      | .error e =>
        v.regenerate = { v with lastError := some e } ∧
          v.regenerate.runLabels.getLast? = (Failure.generation e).message?) ∧
    (∀ c : Config, c.Loaded → c.grammars ≠ []) ∧
    (∀ (d : Desk InFolder) (c : Config) (seed : Option String),
      obey d c environmentSeed (.view seed) =
        d.note .info .program "Launching native GUI viewer" >>= fun _ =>
          d.surroundings.openViewer c (seed.or environmentSeed)) ∧
    ∀ c : Config, c.grammars ≠ [] → ∀ (seed : Option String) (filter : Log.Filter) (symbols : Bool),
      let v := launch c (seed.or environmentSeed)
      let command := obey ⟨inFolder, filter⟩ c environmentSeed
        (.generate ⟨none, none, seed⟩ symbols true)
      match c.events ⟨none, none, seed⟩ environmentSeed with
      | .ok events =>
        v.events = events ∧ v.lastError = none ∧
          ∃ lines, Leaves command (.ok ()) (lines ++ events.map (·.toJson.compact))
      | .error e =>
        v.events = [] ∧ v.lastError = some e ∧ Leaves command (.error (.generation e)) [] := by
  refine ⟨fun v => ?_, fun c h => h.grammars_ne_nil, fun d c seed => rfl,
    fun c hc seed filter symbols => ?_⟩
  · have hv := v.runEvents_eq environmentSeed
    cases h : v.config.events v.overrides environmentSeed with
    | error e =>
      have hr : v.regenerate = { v with lastError := some e } := by
        rw [regenerate, hv, h]
      exact ⟨hr, getLast?_runLabels (by rw [hr])⟩
    | ok events =>
      simp only
      rw [regenerate, hv, h]
  · have hv := runEvents_first hc seed environmentSeed
    have hl := leaves_obey_generate_events filter c environmentSeed ⟨none, none, seed⟩ symbols
    intro v command
    cases h : c.events ⟨none, none, seed⟩ environmentSeed with
    | error e =>
      rw [h] at hv hl
      simp only [v, launch, regenerate, hv]
      exact ⟨rfl, trivial, hl⟩
    | ok events =>
      rw [h] at hv hl
      simp only [v, launch, regenerate, hv]
      exact ⟨trivial, trivial, hl⟩

/-- A configuration that leaves its first grammar room for one pass, but not for two. -/
def narrow (passes : Int) : Config :=
  { Config.builtin with
    settings := { Settings.standard with iterations := passes }
    limits := { Limits.standard with maxSymbols := 100 } }

theorem narrow_ne_nil (passes : Int) : (narrow passes).grammars ≠ [] := List.cons_ne_nil _ _

theorem events_narrow :
    (∃ events, (narrow 1).events ⟨some "bush", some 1, some "default"⟩ none = .ok events ∧
        events.length = 12) ∧
      ∃ e, (narrow 1).events ⟨some "bush", some 2, some "default"⟩ none = .error e := by
  have hsize : ((narrow 1).events ⟨some "bush", some 1, some "default"⟩ none).toOption.map
      List.length = some 12 := by
    decide +kernel
  have hfail : ((narrow 1).events ⟨some "bush", some 2, some "default"⟩ none).isOk = false := by
    decide +kernel
  exact ⟨exists_eq_ok_of_map hsize, exists_eq_error_of_isOk hfail⟩

/-- A viewer and a command that are asked for a negative number of passes, and for one. -/
theorem regenerate_agrees_with_command_line_narrow :
    ((narrow (-1)).grammars ≠ [] ∧
      (launch (narrow (-1)) none).lastError = some (.config (.negativeIterations (-1))) ∧
      Leaves (obey ⟨inFolder, Log.Filter.standard⟩ (narrow (-1)) none
          (.generate ⟨none, none, none⟩ false true))
        (.error (.generation (.config (.negativeIterations (-1))))) []) ∧
    (narrow 1).grammars ≠ [] ∧ (launch (narrow 1) none).lastError = none ∧
      (launch (narrow 1) none).events.length = 12 ∧
      ∃ lines, Leaves (obey ⟨inFolder, Log.Filter.standard⟩ (narrow 1) none
          (.generate ⟨none, none, none⟩ false true))
        (.ok ()) (lines ++ (launch (narrow 1) none).events.map (·.toJson.compact)) := by
  constructor
  · have hc := narrow_ne_nil (-1)
    have h := (regenerate_agrees_with_command_line none).2.2.2 (narrow (-1)) hc none
      Log.Filter.standard false
    exact ⟨hc, h.2.1, h.2.2⟩
  · have hc := narrow_ne_nil 1
    obtain ⟨events, hr, hsize⟩ := events_narrow.1
    -- what the user does not ask for is what the configuration says
    have hdraws : (narrow 1).events ⟨none, none, none⟩ none = .ok events := hr
    generalize narrow 1 = c at hc hdraws ⊢
    have h := (regenerate_agrees_with_command_line none).2.2.2 c hc none Log.Filter.standard false
    simp only [Option.or_none, hdraws] at h
    obtain ⟨hshown, hfault, hleaves⟩ := h
    rw [hshown]
    exact ⟨hc, hfault, hsize, hleaves⟩

end Arbor.Viewer
