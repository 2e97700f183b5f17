import Arbor.Proofs.Generation.Departure
import Arbor.Proofs.Growth.Choice

/-! # Runs with fewer passes

A run of a grammar without weights goes on where a run with fewer passes ends. Both depart
with the same turtle and the same generator, the one with a prefix of the other's word, and a
walk draws part by part.
-/

namespace Arbor.Generation

open Turtle

variable {g : Grammar} {p : Params}

theorem validate_of_le {started : Xorshift × State Float} (h : p.validate = .ok started) {m : Nat}
    (hm : m ≤ p.iterations) : Params.validate { p with iterations := m } = .ok started := by
  obtain ⟨generator, initial⟩ := started
  obtain ⟨hn, ht, hi, hg⟩ := Params.validate_eq_ok_iff.mp h
  have hmn := Limits.checkIterations_eq_ok_iff.mpr
    (hm.trans (Limits.checkIterations_eq_ok_iff.mp hn))
  exact Params.validate_eq_ok_iff.mpr ⟨hmn, ht, hi, hg⟩

theorem exists_departure_of_le (hg : g.index.Weightless) {start : Walker Float Xorshift}
    {word : Word} (h : departure g p = .ok (start, word)) {m : Nat} (hm : m ≤ p.iterations) :
    ∃ shorter, departure g { p with iterations := m } = .ok (start, shorter) ∧
      shorter <+: word := by
  obtain ⟨generator, initial, hv, hle, rfl, rfl⟩ := departure_eq_ok_iff_generation.mp h
  have hp := RuleIndex.generation_isPrefix g.index g.start generator hm
  refine ⟨_, departure_eq_ok_iff_generation.mpr
    ⟨generator, initial, validate_of_le hv hm, hp.length_le.trans hle, rfl, ?_⟩, hp⟩
  rw [hg.source_generation, hg.source_generation]

/-- Passes without weights never change what is drawn already: if a run of a grammar whose
rules weigh nothing succeeds, each run with fewer passes succeeds as well, and its word and
its events are prefixes. -/
theorem fewer_passes_draw_prefix (hg : g.index.Weightless) (p : Params) (r : Recorded)
    (h : run g p = .ok r) (m : Nat) (hm : m ≤ p.iterations) :
    ∃ r', run g { p with iterations := m } = .ok r' ∧ r'.word <+: r.word ∧
      r'.events.toList <+: r.events.toList := by
  obtain ⟨start, word, hd, rfl⟩ := run_eq_ok_iff.mp h
  obtain ⟨shorter, hd', hp⟩ := exists_departure_of_le hg hd hm
  refine ⟨_, run_eq_ok_iff.mpr ⟨start, shorter, hd', rfl⟩, hp, ?_⟩
  obtain ⟨rest, rfl⟩ := hp
  simp only [Walker.drawn_append]
  exact List.prefix_append _ _

theorem fewer_passes_draw_prefix_bush :
    let p : Params := { Params.standard with iterations := 2 }
    Grammar.bush.index.Weightless ∧ 1 ≤ p.iterations ∧
    ∃ r r', run .bush p = .ok r ∧ run .bush { p with iterations := 1 } = .ok r' ∧
      r'.word <+: r.word ∧ r'.events.toList <+: r.events.toList := by
  intro p
  obtain ⟨r, hr⟩ := exists_run_of_isOk (show (departure .bush p).isOk = true by decide +kernel)
  obtain ⟨r', hr', hp⟩ := fewer_passes_draw_prefix Grammar.weightless_bush p r hr 1 (by decide)
  exact ⟨Grammar.weightless_bush, by decide, r, r', hr, hr', hp⟩

end Arbor.Generation
