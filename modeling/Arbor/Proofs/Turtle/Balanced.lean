import Arbor.Proofs.Turtle.Restore

/-! # Walks of balanced words

On a word that never closes a bracket too many, every closing bracket finds a saved state,
and a balanced word leaves nothing saved.
-/

namespace Arbor.Turtle

variable {α ρ σ : Type} [Geometric α] [RandomSource ρ α] {params : Params α} {start : Walker α ρ}

theorem Balanced.openBrackets_eq_nil {word : Word} (h : Balanced word) : openBrackets word = [] :=
  h.openFrom_eq 0 []

theorem Balanced.size_after {word : Word} (h : Balanced word) (hs : start.stack.saved = []) :
    (start.after params word).stack.size = 1 := by
  rw [Turtle.size_after hs, h.openBrackets_eq_nil, List.length_nil]

theorem openBrackets_ne_nil {word : Word}
    (h : ∀ u, u <+: word ++ [']'] → u.count ']' ≤ u.count '[') : openBrackets word ≠ [] := by
  intro hn
  obtain ⟨added, he, hc⟩ := exists_openFrom_eq_append
    (fun u hu => h u (hu.trans (List.prefix_append _ _))) 0 []
  have hall := h _ List.prefix_rfl
  rw [openBrackets, he, List.append_nil] at hn
  rw [hn, List.length_nil, Nat.zero_add] at hc
  rw [List.count_append, List.count_append, hc] at hall
  exact absurd (Nat.le_of_add_le_add_left hall) (by decide)

theorem exists_saved_after_eq_cons (params : Params α) (hs : start.stack.saved = []) {word : Word}
    (h : ∀ u, u <+: word ++ [']'] → u.count ']' ≤ u.count '[') :
    ∃ top rest, (start.after params word).stack.saved = top :: rest := by
  rw [saved_after params hs]
  exact List.exists_cons_of_ne_nil fun hm => openBrackets_ne_nil h (List.map_eq_nil_iff.mp hm)

theorem pop?_walk_take_ne_none (params : Params α) (emit : σ → Event α → σ) (initial : State α)
    (source : ρ) (sink : σ) {word : Word} (h : Balanced word) {j : Nat}
    (hj : word[j]? = some ']') :
    (walk params emit (word.take j) (⟨.ofState initial, source⟩ : Walker α ρ)
      sink).1.stack.pop? ≠ none := by
  have hp : word.take j ++ [']'] <+: word := by
    have ht := List.take_prefix (j + 1) word
    rwa [List.take_add_one, hj] at ht
  let start : Walker α ρ := ⟨.ofState initial, source⟩
  have hs : start.stack.saved = [] := rfl
  obtain ⟨top, rest, hsaved⟩ := exists_saved_after_eq_cons params hs
    fun u hu => h.closing_le u (hu.trans hp)
  rw [walk_eq, Stack.pop?, hsaved]
  exact Option.some_ne_none _

theorem isMarker_eq_false_of_ne {w : Walker α ρ} {c : Char} (hc : c ≠ ']') {e : Event α}
    (he : e ∈ (step params w c).1) : e.isMarker = false := by
  cases h : Command.ofSymbol? c with
  | none =>
    simp only [step, h] at he
    cases he
  | some command =>
    obtain rfl := Command.ofSymbol?_eq_some_iff.mp h
    cases command with
    | advance =>
      simp only [step, h, obey, State.segment, List.mem_cons, List.not_mem_nil, or_false] at he
      rcases he with rfl | rfl | rfl <;> rfl
    | pop => exact absurd rfl hc
    | _ => cases he

theorem color_of_isMarker (hs : start.stack.saved = []) {word : Word}
    (h : ∀ u, u <+: word → u.count ']' ≤ u.count '[') {e : Event α}
    (he : e ∈ start.drawn params word) (hm : e.isMarker = true) :
    e.color = params.palette.restore := by
  induction word using List.reverseRecOn with
  | nil => cases he
  | append_singleton word c ih =>
    rw [Walker.drawn_append, Walker.drawn_singleton, List.mem_append] at he
    rcases he with he | he
    · exact ih (fun u hu => h u (hu.trans (List.prefix_append _ _))) he
    · by_cases hc : c = ']'
      · subst hc
        obtain ⟨top, rest, hsaved⟩ := exists_saved_after_eq_cons params hs h
        rw [step_pop_of_saved_eq_cons hsaved, List.mem_singleton] at he
        rw [he]
        rfl
      · rw [isMarker_eq_false_of_ne hc he] at hm
        cases hm

end Arbor.Turtle
