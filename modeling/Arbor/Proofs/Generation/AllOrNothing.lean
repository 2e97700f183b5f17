import Arbor.Generation.Run
import Arbor.Grammar.Catalog
import Arbor.Proofs.Turtle.Restore
import Mathlib.Data.List.Basic
import Mathlib.Data.Nat.SuccPred
import Mathlib.Logic.Function.Iterate

/-! # Runs are all or nothing

Whether a run succeeds is decided before its walk begins. The walk cannot fail, so a
sink gets either nothing or everything, and all ways to run a grammar agree.
-/

namespace Arbor.Generation

open Turtle

variable {σ : Type} {g : Grammar} {p : Params}

/-- The turtle that a run lets walk and the word that it walks. -/
def departure (g : Grammar) (p : Params) :
    Except GenerationError (Walker Float Xorshift × Word) :=
  match grow g p with
  | .error e => .error (.config e)
  | .ok grown =>
    match grown.growth.outcome with
    | .error e => .error e
    | .ok word => .ok (⟨.ofState grown.initial, grown.growth.source⟩, word)

def Finished.ofWalk (turtle : Turtle.Params Float) (start : Walker Float Xorshift)
    (word : Word) : Finished :=
  ⟨word, word.length, .ofEvents (start.drawn turtle word), (start.after turtle word).stack.size⟩

theorem departure_eq_ok_iff {start : Walker Float Xorshift} {word : Word} :
    departure g p = .ok (start, word) ↔ ∃ grown, grow g p = .ok grown ∧
      grown.growth.outcome = .ok word ∧ start = ⟨.ofState grown.initial, grown.growth.source⟩ := by
  unfold departure
  cases grow g p with
  | error e => simp
  | ok grown =>
    cases h : grown.growth.outcome with
    | error e => simp [h]
    | ok w => simp [h, and_comm, eq_comm]

theorem saved_of_departure {start : Walker Float Xorshift} {word : Word}
    (h : departure g p = .ok (start, word)) : start.stack.saved = [] := by
  obtain ⟨grown, _, _, rfl⟩ := departure_eq_ok_iff.mp h
  rfl

theorem stream_of_error {e : GenerationError} (h : departure g p = .error e)
    (emit : σ → Event Float → σ) (sink : σ) : stream g p emit sink = (.error e, sink) := by
  unfold departure at h
  unfold stream
  cases hg : grow g p with
  | error fault =>
    rw [hg] at h
    cases h
    rfl
  | ok grown =>
    rw [hg] at h
    cases ho : grown.growth.outcome with
    | error fault =>
      simp only [ho] at h
      cases h
      simp only [Grown.walk, ho]
    | ok word =>
      simp only [ho] at h
      cases h

theorem stream_of_ok {start : Walker Float Xorshift} {word : Word}
    (h : departure g p = .ok (start, word)) (emit : σ → Event Float → σ) (sink : σ) :
    stream g p emit sink =
      (.ok (.ofWalk p.turtle start word), (start.drawn p.turtle word).foldl emit sink) := by
  obtain ⟨grown, hg, ho, rfl⟩ := departure_eq_ok_iff.mp h
  simp only [stream, hg, Grown.walk, ho, walk_eq]
  rw [List.foldl_hom₂ _ Prod.mk Summary.add emit]
  · rfl
  · exact fun _ _ _ => rfl

theorem run_of_error {e : GenerationError} (h : departure g p = .error e) :
    run g p = .error e ∧ events g p = .error e ∧ report g p = .error e := by
  simp only [run, events, report, stream_of_error h, and_self]

theorem run_of_ok {start : Walker Float Xorshift} {word : Word}
    (h : departure g p = .ok (start, word)) :
    run g p = .ok ⟨.ofWalk p.turtle start word, (start.drawn p.turtle word).toArray⟩ ∧
      events g p = .ok (start.drawn p.turtle word).toArray ∧
      report g p = .ok (Finished.ofWalk p.turtle start word).report := by
  simp only [run, events, report, stream_of_ok h]
  simp

/-- A run that fails hands nothing to its sink, and fails in the same way without one. A
run that succeeds hands on every event that is kept, in order, and reports the counts of
the kept word and its events, and the stack that any walk of that word leaves. -/
theorem stream_all_or_nothing (g : Grammar) (p : Params) (emit : σ → Event Float → σ) (sink : σ) :
    match run g p with
    | .error e =>
      stream g p emit sink = (.error e, sink) ∧ events g p = .error e ∧ report g p = .error e
    | .ok r =>
      stream g p emit sink = (.ok r.toFinished, r.events.toList.foldl emit sink) ∧
        events g p = .ok r.events ∧ report g p = .ok r.report ∧
        r.report.symbols = r.word.length ∧
        r.report.events = .ofEvents r.events.toList ∧
        r.report.events.arrows = r.word.count 'F' ∧
        r.report.events.points = 2 * r.word.count 'F' ∧
        r.report.events.markers = r.word.count ']' ∧
        ∀ turtle initial source,
          r.report.stackSize =
            (walk turtle emit r.word (⟨.ofState initial, source⟩ : Walker Float Xorshift)
              sink).1.stack.size := by
  cases h : departure g p with
  | error e =>
    obtain ⟨hr, hv, ht⟩ := run_of_error h
    rw [hr]
    exact ⟨stream_of_error h emit sink, hv, ht⟩
  | ok departed =>
    obtain ⟨start, word⟩ := departed
    obtain ⟨hr, hv, ht⟩ := run_of_ok h
    obtain ⟨hp, ha, hm⟩ := counts_ofEvents_drawn p.turtle start word
    rw [hr]
    refine ⟨stream_of_ok h emit sink, hv, ht, rfl, rfl, ha, hp, hm, fun turtle initial source => ?_⟩
    rw [walk_eq]
    exact (size_after (saved_of_departure h) word).trans (size_after rfl word).symm

/-- Parameters that leave a bush room for one pass, but not for two. -/
def narrow (passes : Nat) : Params :=
  { Params.standard with
    iterations := passes
    limits := { Limits.standard with maxSymbols := 100 } }

theorem run_bush_narrow :
    (∃ r, run Grammar.bush (narrow 1) = .ok r ∧ r.events.size = 12) ∧
      ∃ e, run Grammar.bush (narrow 2) = .error e := by
  have hsize : (run Grammar.bush (narrow 1)).toOption.map (·.events.size) = some 12 := by
    decide +kernel
  have hfail : (run Grammar.bush (narrow 2)).isOk = false := by decide +kernel
  exact ⟨exists_eq_ok_of_map hsize, exists_eq_error_of_isOk hfail⟩

/-- A sink that counts gets all events of a run that succeeds and none of one that fails. -/
theorem stream_all_or_nothing_bush :
    (∃ r, run Grammar.bush (narrow 1) = .ok r ∧
      stream Grammar.bush (narrow 1) (fun n _ => n + 1) 0 = (.ok r.toFinished, 12)) ∧
    ∃ e, run Grammar.bush (narrow 2) = .error e ∧
      stream Grammar.bush (narrow 2) (fun n _ => n + 1) 0 = (.error e, 0) := by
  obtain ⟨⟨r, hr, hsize⟩, e, he⟩ := run_bush_narrow
  constructor
  · generalize narrow 1 = p at hr ⊢
    have h := stream_all_or_nothing Grammar.bush p (fun n _ => n + 1) 0
    rw [hr] at h
    have hcount : r.events.toList.foldl (fun n _ => n + 1) 0 = 12 := by
      rw [List.foldl_const Nat.succ, Nat.succ_iterate, Nat.zero_add]
      exact hsize
    exact ⟨r, hr, by rw [h.1, hcount]⟩
  · generalize narrow 2 = p at he ⊢
    have h := stream_all_or_nothing Grammar.bush p (fun n _ => n + 1) 0
    rw [he] at h
    exact ⟨e, he, h.1⟩

end Arbor.Generation
