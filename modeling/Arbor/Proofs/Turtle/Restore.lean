import Arbor.Proofs.Turtle.Matching
import Arbor.Proofs.Turtle.Walk
import Arbor.Random.Xorshift

/-! # Brackets on a walk

On a walk that starts with nothing saved, the saved states are those in which the
turtle met the brackets that are still open. A bracket that closes another one
therefore brings back the state before it.
-/

namespace Arbor.Turtle

variable {α ρ σ : Type} [Geometric α] [RandomSource ρ α]

/-- The state in which a walk gets to a position of the word. -/
def Walker.stateAt (params : Params α) (start : Walker α ρ) (word : Word) (i : Nat) : State α :=
  (start.after params (word.take i)).stack.current

variable {params : Params α} {start : Walker α ρ}

theorem map_stateAt_openBrackets_append (params : Params α) (start : Walker α ρ) (u v : Word) :
    (openBrackets u).map (start.stateAt params (u ++ v)) =
      (openBrackets u).map (start.stateAt params u) := by
  apply List.map_congr_left
  intro i hi
  have hlt := (openBrackets_pairwise u).2 i hi
  simp only [Walker.stateAt, List.take_append_of_le_length (Nat.le_of_lt hlt)]

/-- The saved states are those in which the walk met the brackets that are still open. -/
theorem saved_after (params : Params α) (hs : start.stack.saved = []) (word : Word) :
    (start.after params word).stack.saved =
      (openBrackets word).map (start.stateAt params word) := by
  induction word using List.reverseRecOn with
  | nil => exact hs
  | append_singleton word c ih =>
    rw [Walker.after_append, Walker.after_singleton, openBrackets_concat]
    rcases bracket_cases c with rfl | rfl | ⟨hl, hr⟩
    · simp only [step_push, Stack.push, noteBracket, List.map_cons,
        map_stateAt_openBrackets_append, Walker.stateAt, List.take_left]
      rw [ih]
    · have hm := map_stateAt_openBrackets_append params start word [']']
      rw [← ih] at hm
      cases ho : openBrackets word with
      | nil =>
        rw [ho] at hm
        rw [step_pop_of_saved_eq_nil hm.symm, ← hm]
        rfl
      | cons i rest =>
        rw [ho] at hm
        rw [step_pop_of_saved_eq_cons hm.symm]
        rfl
    · rw [saved_step_of_ne hl hr, noteBracket_of_ne hl hr, map_stateAt_openBrackets_append, ih]

theorem size_after (hs : start.stack.saved = []) (word : Word) :
    (start.after params word).stack.size = 1 + (openBrackets word).length := by
  rw [Stack.size, Stack.depth, saved_after params hs, List.length_map, Nat.add_comm]

theorem after_take_succ {word : Word} {j : Nat} {c : Char} (hc : word[j]? = some c) :
    start.after params (word.take (j + 1)) =
      (step params (start.after params (word.take j)) c).2 := by
  rw [List.take_add_one, hc, Option.toList_some, Walker.after_append, Walker.after_singleton]

theorem drawn_take_succ {word : Word} {j : Nat} {c : Char} (hc : word[j]? = some c) :
    start.drawn params (word.take (j + 1)) =
      start.drawn params (word.take j) ++ (step params (start.after params (word.take j)) c).1 := by
  rw [List.take_add_one, hc, Option.toList_some, Walker.drawn_append, Walker.drawn_singleton]

theorem after_of_closes (params : Params α) (hs : start.stack.saved = []) {word : Word} {i j : Nat}
    (h : Closes word i j) :
    (start.after params (word.take (j + 1))).stack.current = start.stateAt params word i ∧
      start.drawn params (word.take (j + 1)) = start.drawn params (word.take j) ++
        [.marker (start.stateAt params word i).position params.palette.restore] := by
  obtain ⟨hj, hi⟩ := closes_iff.mp h
  obtain ⟨rest, ho⟩ := List.head?_eq_some_iff.mp hi
  have hstate : start.stateAt params (word.take j) i = start.stateAt params word i := by
    rw [Walker.stateAt, List.take_take, Nat.min_eq_left (Nat.le_of_lt h.lt), Walker.stateAt]
  have hsaved := saved_after params hs (word.take j)
  rw [ho, List.map_cons, hstate] at hsaved
  rw [after_take_succ hj, drawn_take_succ hj, step_pop_of_saved_eq_cons hsaved]
  exact ⟨rfl, rfl⟩

theorem after_of_unmatched (params : Params α) (hs : start.stack.saved = []) {word : Word} {j : Nat}
    (hj : word[j]? = some ']') (h : ∀ i, ¬ Closes word i j) :
    start.after params (word.take (j + 1)) = start.after params (word.take j) ∧
      start.drawn params (word.take (j + 1)) = start.drawn params (word.take j) ++
        [.marker (start.stateAt params word j).position params.palette.unmatchedRestore] := by
  have ho : openBrackets (word.take j) = [] := by
    rw [← List.head?_eq_none_iff, Option.eq_none_iff_forall_ne_some]
    exact fun i hi => h i (closes_iff.mpr ⟨hj, hi⟩)
  have hsaved := saved_after params hs (word.take j)
  rw [ho, List.map_nil] at hsaved
  rw [after_take_succ hj, drawn_take_succ hj, step_pop_of_saved_eq_nil hsaved]
  exact ⟨rfl, rfl⟩

/-- A walk that reaches a closing bracket takes up the state before the bracket that it
closes, and marks that place. One that closes nothing is marked as such and leaves the
walker as it is. At the end the states before the brackets that nothing closes are saved,
the last one on top. -/
theorem walk_restores_closed_brackets (params : Params α) (initial : State α) (source : ρ)
    (emit : σ → Event α → σ) (word : Word) (sink : σ) :
    let start : Walker α ρ := ⟨.ofState initial, source⟩
    let upTo k := walk params emit (word.take k) start sink
    let final := walk params emit word start sink
    (∀ k, final = walk params emit (word.drop k) (upTo k).1 (upTo k).2) ∧
    (∀ i j, Closes word i j →
      (upTo (j + 1)).1.stack.current = (upTo i).1.stack.current ∧
        (upTo (j + 1)).2 =
          emit (upTo j).2 (.marker (upTo i).1.stack.current.position params.palette.restore)) ∧
    (∀ j, word[j]? = some ']' → (∀ i, ¬ Closes word i j) →
      (upTo (j + 1)).1 = (upTo j).1 ∧
        (upTo (j + 1)).2 = emit (upTo j).2
          (.marker (upTo j).1.stack.current.position params.palette.unmatchedRestore)) ∧
    (openBrackets word).Pairwise (· > ·) ∧
    (∀ i, i ∈ openBrackets word ↔ word[i]? = some '[' ∧ ∀ j, ¬ Closes word i j) ∧
    final.1.stack.saved = (openBrackets word).map (fun i => (upTo i).1.stack.current) ∧
    final.1.stack.size = 1 + (openBrackets word).length ∧
    ∀ k, 1 ≤ (upTo k).1.stack.size := by
  intro start upTo final
  have hsaved : final.1.stack.saved =
      (openBrackets word).map (fun i => (upTo i).1.stack.current) := by
    simp only [final, upTo, walk_eq]
    exact saved_after params rfl word
  refine ⟨fun k => ?_, fun i j h => ?_, fun j hj h => ?_, (openBrackets_pairwise word).1,
    fun i => mem_openBrackets_iff, hsaved, ?_, fun k => Stack.one_le_size _⟩
  · simp only [final, upTo, walk_eq]
    rw [← Walker.after_append, ← List.foldl_append, ← Walker.drawn_append, List.take_append_drop]
  · obtain ⟨ha, hd⟩ := after_of_closes params (show start.stack.saved = [] from rfl) h
    simp only [upTo, walk_eq, hd, List.foldl_append]
    exact ⟨ha, rfl⟩
  · obtain ⟨ha, hd⟩ := after_of_unmatched params (show start.stack.saved = [] from rfl) hj h
    simp only [upTo, walk_eq, hd, List.foldl_append]
    exact ⟨ha, rfl⟩
  · simp only [final, walk_eq]
    exact size_after rfl word

theorem walk_restores_closed_brackets_segment :
    Closes ['[', 'F', ']', ']'] 0 2 ∧
      (walk Params.standard (fun events e => events ++ [e]) ['[', 'F', ']']
        (⟨.ofState .standard, .default⟩ : Walker Float Xorshift) []).1.stack.current =
          State.standard := by
  have hc : Closes ['[', 'F', ']', ']'] 0 2 := by decide
  exact ⟨hc, ((walk_restores_closed_brackets Params.standard .standard Xorshift.default
    (fun events e => events ++ [e]) ['[', 'F', ']', ']'] []).2.1 0 2 hc).1⟩

end Arbor.Turtle
