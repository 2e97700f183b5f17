import Arbor.Proofs.Generation.Departure
import Arbor.Proofs.Growth.Choice
import Arbor.Proofs.Turtle.Measures

/-! # What a seed decides

Where a grammar leaves no choice, a seed decides on places and directions only. Runs that
differ in their seeds end alike, grow the same word and draw events that look alike.
-/

namespace Arbor.Generation

open Turtle

variable {g : Grammar} {p : Params}

def finalStack (g : Grammar) (p : Params) : Except GenerationError (Stack Float) :=
  (departure g p).map fun (start, word) => (walk p.turtle (fun _ _ => ()) word start ()).1.stack

theorem finalStack_of_ok {start : Walker Float Xorshift} {word : Word}
    (h : departure g p = .ok (start, word)) :
    finalStack g p = .ok (start.after p.turtle word).stack := by
  rw [finalStack, h]
  simp only [Except.map, walk_eq]

/-- The checks of a run's parameters that do not look at the seed. -/
def Params.settled (p : Params) : Except ConfigError (State Float) := do
  p.limits.checkIterations p.iterations
  p.turtle.validate
  p.initial.validated

theorem validate_of_ofSeed {generator : Xorshift} (h : Xorshift.ofSeed p.seed = .ok generator) :
    p.validate = p.settled.map (generator, ·) := by
  simp only [Params.validate, Params.settled, Params.generatorOf, h]
  cases p.limits.checkIterations p.iterations with
  | error e => rfl
  | ok =>
    cases p.turtle.validate with
    | error e => rfl
    | ok => cases p.initial.validated <;> rfl

/-- Runs without a choice depart with the same turtle and the same word whatever their
accepted seeds are, or fail alike. -/
theorem departure_of_seeds (hg : g.index.LeavesNoChoice) (p : Params) {seed seed' : String}
    {generator generator' : Xorshift} (hs : Xorshift.ofSeed seed = .ok generator)
    (hs' : Xorshift.ofSeed seed' = .ok generator') :
    (∃ e, departure g { p with seed } = .error e ∧
      departure g { p with seed := seed' } = .error e) ∨
    ∃ initial source source' word,
      departure g { p with seed } = .ok (⟨.ofState initial, source⟩, word) ∧
        departure g { p with seed := seed' } = .ok (⟨.ofState initial, source'⟩, word) := by
  have hv := validate_of_ofSeed (p := { p with seed }) hs
  have hv' := validate_of_ofSeed (p := { p with seed := seed' }) hs'
  rw [show Params.settled { p with seed } = p.settled from rfl] at hv
  rw [show Params.settled { p with seed := seed' } = p.settled from rfl] at hv'
  cases hc : p.settled with
  | error e =>
    rw [hc] at hv hv'
    exact Or.inl ⟨_, departure_of_validate_error hv, departure_of_validate_error hv'⟩
  | ok initial =>
    rw [hc] at hv hv'
    rw [departure_of_validate hv, departure_of_validate hv']
    have ho := hg.outcome_grow p.limits g.start p.iterations generator generator'
    simp only [ho]
    cases (g.index.grow p.limits g.start p.iterations generator').outcome with
    | error e => exact Or.inl ⟨e, rfl, rfl⟩
    | ok word => exact Or.inr ⟨initial, _, _, word, rfl, rfl⟩

theorem exists_report_ofWalk_eq (turtle : Turtle.Params Float) {w w' : Walker Float Xorshift}
    (h : w.stack.measures = w'.stack.measures) (word : Word) :
    ∃ bounds, (Finished.ofWalk turtle w' word).report =
      { (Finished.ofWalk turtle w word).report with
        events := { (Finished.ofWalk turtle w word).report.events with bounds } } := by
  obtain ⟨hp, ha, hm⟩ := counts_ofEvents_drawn turtle w word
  obtain ⟨hp', ha', hm'⟩ := counts_ofEvents_drawn turtle w' word
  rw [← hp'] at hp
  rw [← ha'] at ha
  rw [← hm'] at hm
  have hsize := Stack.size_eq_of_measures (measures_after turtle h word).2
  refine ⟨(Summary.ofEvents (w'.drawn turtle word)).bounds, ?_⟩
  simp only [Finished.ofWalk, hp, ha, hm, hsize]

/-- Two runs of a grammar that leaves no choice, with different accepted seeds, fail alike,
or they grow the same word, report the same but for the bounds, draw events that look
alike one by one and leave stacks of the same measures. -/
theorem seeds_decide_places_only (hg : g.index.LeavesNoChoice) (p : Params)
    (seed seed' : String) (hs : ∃ generator, Xorshift.ofSeed seed = .ok generator)
    (hs' : ∃ generator, Xorshift.ofSeed seed' = .ok generator) :
    match run g { p with seed }, run g { p with seed := seed' } with
    | .error e, .error e' => e = e'
    | .ok r, .ok r' =>
      r.word = r'.word ∧
      (∃ bounds, r'.report = { r.report with events := { r.report.events with bounds } }) ∧
      r.events.toList.map Event.look = r'.events.toList.map Event.look ∧
      ∃ stack stack', finalStack g { p with seed } = .ok stack ∧
        finalStack g { p with seed := seed' } = .ok stack' ∧
        stack.size = stack'.size ∧ r.report.stackSize = stack.size ∧
        stack.toList.map State.measures = stack'.toList.map State.measures
    | _, _ => False := by
  obtain ⟨generator, hs⟩ := hs
  obtain ⟨generator', hs'⟩ := hs'
  rcases departure_of_seeds hg p hs hs' with
    ⟨e, hd, hd'⟩ | ⟨initial, source, source', word, hd, hd'⟩
  · rw [(run_of_error hd).1, (run_of_error hd').1]
  · rw [(run_of_ok hd).1, (run_of_ok hd').1]
    have hm : (⟨.ofState initial, source⟩ : Walker Float Xorshift).stack.measures =
        (⟨.ofState initial, source'⟩ : Walker Float Xorshift).stack.measures := rfl
    obtain ⟨hl, hst⟩ := measures_after p.turtle hm word
    exact ⟨rfl, exists_report_ofWalk_eq p.turtle hm word, hl, _, _, finalStack_of_ok hd,
      finalStack_of_ok hd', Stack.size_eq_of_measures hst, rfl, hst⟩

theorem seeds_decide_places_only_bush :
    let p : Params := { Params.standard with iterations := 1 }
    Grammar.bush.index.LeavesNoChoice ∧
    (∃ generator, Xorshift.ofSeed "one" = .ok generator) ∧
    (∃ generator, Xorshift.ofSeed "two" = .ok generator) ∧
    ∃ r r', run .bush { p with seed := "one" } = .ok r ∧
      run .bush { p with seed := "two" } = .ok r' ∧ r.word = r'.word ∧
      r.events.toList.map Event.look = r'.events.toList.map Event.look := by
  intro p
  have hone : ∃ generator, Xorshift.ofSeed "one" = .ok generator := ⟨_, rfl⟩
  have htwo : ∃ generator, Xorshift.ofSeed "two" = .ok generator := ⟨_, rfl⟩
  obtain ⟨r, hr⟩ := exists_run_of_isOk
    (show (departure .bush { p with seed := "one" }).isOk = true by decide +kernel)
  have h := seeds_decide_places_only Grammar.leavesNoChoice_bush p "one" "two" hone htwo
  rw [hr] at h
  refine ⟨Grammar.leavesNoChoice_bush, hone, htwo, r, ?_⟩
  cases hr' : run .bush { p with seed := "two" } with
  | error e =>
    rw [hr'] at h
    exact h.elim
  | ok r' =>
    rw [hr'] at h
    exact ⟨r', hr, rfl, h.1, h.2.2.1⟩

end Arbor.Generation
