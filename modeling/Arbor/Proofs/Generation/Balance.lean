import Arbor.Proofs.Generation.Departure
import Arbor.Proofs.Growth.Balance
import Arbor.Proofs.Turtle.Balanced

/-! # Runs of balanced grammars

Grammars whose brackets have their partners grow balanced words, and their walks end with the
turtle that has nothing saved.
-/

namespace Arbor.Generation

open Turtle

variable {g : Grammar}

/-- A finished run of a grammar that keeps balance has grown a balanced word and leaves one
state on the stack. Each of its closing brackets has found a saved state, and so all of its
markers are those of restored places. -/
theorem balanced_run_restores (hg : g.KeepsBalance) (p : Params) (r : Recorded)
    (h : run g p = .ok r) :
    Balanced r.word ∧ r.report.stackSize = 1 ∧
      (∀ e ∈ r.events.toList, e.isMarker = true → e.color = p.turtle.palette.restore) ∧
      ∀ j, r.word[j]? = some ']' → ∀ (initial : State Float) (source : Xorshift),
        (walk p.turtle Array.push (r.word.take j)
          (⟨.ofState initial, source⟩ : Walker Float Xorshift) #[]).1.stack.pop? ≠ none := by
  obtain ⟨start, word, hd, rfl⟩ := run_eq_ok_iff.mp h
  have hs := saved_of_departure hd
  have hb : Balanced word := by
    obtain ⟨generator, _, _, _, rfl, _⟩ := departure_eq_ok_iff_generation.mp hd
    exact hg.balanced_generation generator p.iterations
  refine ⟨hb, hb.size_after hs, fun e he hm => ?_, fun j hj initial source => ?_⟩
  · exact color_of_isMarker hs hb.closing_le (List.mem_toArray.mp (Array.mem_toList_iff.mp he)) hm
  · exact pop?_walk_take_ne_none p.turtle Array.push initial source #[] hb hj

theorem balanced_run_restores_bush :
    let p : Params := { Params.standard with iterations := 1 }
    Grammar.bush.KeepsBalance ∧
    ∃ r, run .bush p = .ok r ∧ Balanced r.word ∧ r.report.stackSize = 1 ∧
      ∀ e ∈ r.events.toList, e.isMarker = true → e.color = p.turtle.palette.restore := by
  intro p
  obtain ⟨r, hr⟩ := exists_run_of_isOk (show (departure .bush p).isOk = true by decide +kernel)
  obtain ⟨hb, hs, hm, _⟩ := balanced_run_restores Grammar.keepsBalance_bush p r hr
  exact ⟨Grammar.keepsBalance_bush, r, hr, hb, hs, hm⟩

end Arbor.Generation
