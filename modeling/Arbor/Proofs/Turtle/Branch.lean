import Arbor.Proofs.Turtle.Balanced
import Arbor.Proofs.Turtle.Draws

/-! # Finished branches

A walk that never closes a bracket too many does not touch what was saved before it, and one
without turns does not touch its source. A branch that is both leaves its events and nothing else.
-/

namespace Arbor.Turtle

variable {α ρ ρ' : Type} [Geometric α] [RandomSource ρ α] [RandomSource ρ' α]
variable {params : Params α}

/-! ## States below a walk -/

/-- The walker with more states saved below its own. -/
def Walker.above (w : Walker α ρ) (base : List (State α)) : Walker α ρ :=
  { w with stack := ⟨w.stack.current, w.stack.saved ++ base⟩ }

theorem step_above (params : Params α) {w : Walker α ρ} (base : List (State α)) {c : Char}
    (h : c = ']' → ∃ top rest, w.stack.saved = top :: rest) :
    step params (w.above base) c =
      ((step params w c).1, (step params w c).2.above base) := by
  cases hc : Command.ofSymbol? c with
  | none => simp only [step, hc]
  | some command =>
    obtain rfl := Command.ofSymbol?_eq_some_iff.mp hc
    cases command with
    | pop =>
      obtain ⟨top, rest, hs⟩ := h rfl
      have hb : (w.above base).stack.saved = top :: (rest ++ base) := by
        rw [Walker.above, hs, List.cons_append]
      rw [Command.symbol, step_pop_of_saved_eq_cons hs, step_pop_of_saved_eq_cons hb]
      rfl
    | _ => rfl

/-- A walk that never closes a bracket too many does the same above any saved states. -/
theorem walk_above (params : Params α) {w : Walker α ρ} (hs : w.stack.saved = [])
    (base : List (State α)) {word : Word} (h : ∀ u, u <+: word → u.count ']' ≤ u.count '[') :
    (w.above base).after params word = (w.after params word).above base ∧
      (w.above base).drawn params word = w.drawn params word := by
  induction word using List.reverseRecOn with
  | nil => exact ⟨rfl, rfl⟩
  | append_singleton word c ih =>
    obtain ⟨ha, hd⟩ := ih fun u hu => h u (hu.trans (List.prefix_append _ _))
    have hstep := step_above params (w := w.after params word) base (c := c) <| by
      rintro rfl
      exact exists_saved_after_eq_cons params hs h
    rw [Walker.after_append, Walker.drawn_append, ha, hd, Walker.after_singleton,
      Walker.drawn_singleton, hstep, Walker.after_append, Walker.drawn_append,
      Walker.after_singleton, Walker.drawn_singleton]
    exact ⟨rfl, rfl⟩

/-! ## Sources of walks without turns -/

theorem step_of_not_turn (params : Params α) {c : Char} (hp : c ≠ '+') (hm : c ≠ '-')
    {w : Walker α ρ} {w' : Walker α ρ'} (h : w.stack = w'.stack) :
    (step params w c).1 = (step params w' c).1 ∧
      (step params w c).2.stack = (step params w' c).2.stack := by
  cases hc : Command.ofSymbol? c with
  | none => simp only [step, hc, h, and_self]
  | some command =>
    obtain rfl := Command.ofSymbol?_eq_some_iff.mp hc
    cases command with
    | turnPositive => exact absurd rfl hp
    | turnNegative => exact absurd rfl hm
    | _ => simp only [step, hc, obey, h, and_self]

theorem drawn_of_no_turns (params : Params α) {word : Word} (hp : '+' ∉ word) (hm : '-' ∉ word)
    {w : Walker α ρ} {w' : Walker α ρ'} (h : w.stack = w'.stack) :
    w.drawn params word = w'.drawn params word := by
  induction word generalizing w w' with
  | nil => rfl
  | cons c rest ih =>
    rw [List.mem_cons, not_or] at hp hm
    obtain ⟨he, hs⟩ := step_of_not_turn params (Ne.symm hp.1) (Ne.symm hm.1) h
    rw [Walker.drawn, Walker.drawn, he, ih hp.2 hm.2 hs]

theorem source_after_of_no_turns (params : Params α) {word : Word} (hp : '+' ∉ word)
    (hm : '-' ∉ word) (w : Walker α ρ) : (w.after params word).source = w.source := by
  rw [source_after, turns, List.count_eq_zero.mpr hp, List.count_eq_zero.mpr hm,
    RandomSource.skip_zero]

/-! ## The branch -/

section Branch

variable {branch : Word} (hb : Balanced branch)

include hb

/-- The brackets around a balanced word leave the stack as it was, and mark the place that they
come back to. -/
theorem branch_returns (params : Params α) (w : Walker α ρ) :
    let fork : Walker α ρ := ⟨.ofState w.stack.current, w.source⟩
    w.after params ('[' :: (branch ++ [']'])) = ⟨w.stack, (fork.after params branch).source⟩ ∧
      w.drawn params ('[' :: (branch ++ [']'])) = fork.drawn params branch ++
        [.marker w.stack.current.position params.palette.restore] := by
  intro fork
  have hs : fork.stack.saved = [] := rfl
  obtain ⟨ha, hd⟩ := walk_above params hs w.stack.toList hb.closing_le
  have hfork : (step params w '[').2 = fork.above w.stack.toList := rfl
  have hsaved : ((fork.after params branch).above w.stack.toList).stack.saved =
      w.stack.current :: w.stack.saved := by
    rw [Walker.above, saved_after params hs, hb.openBrackets_eq_nil]
    rfl
  rw [Walker.after, Walker.drawn, hfork, Walker.after_append, Walker.drawn_append, ha, hd,
    Walker.after_singleton, Walker.drawn_singleton, step_pop_of_saved_eq_cons hsaved]
  exact ⟨rfl, rfl⟩

theorem turnless_branch_returns (hp : '+' ∉ branch) (hm : '-' ∉ branch) (params : Params α)
    (w : Walker α ρ) (source' : ρ') :
    w.after params ('[' :: (branch ++ [']'])) = w ∧
      w.drawn params ('[' :: (branch ++ [']'])) =
        (⟨.ofState w.stack.current, source'⟩ : Walker α ρ').drawn params branch ++
          [.marker w.stack.current.position params.palette.restore] := by
  obtain ⟨ha, hd⟩ := branch_returns hb params w
  rw [source_after_of_no_turns params hp hm] at ha
  exact ⟨ha, hd.trans (congrArg (· ++ _) (drawn_of_no_turns params hp hm rfl))⟩

end Branch

/-- A balanced word without turns can be pruned with its brackets. The walk then leaves out the
events of that word, as drawn from the state at its fork, and the marker of that place. It draws
all others, and it ends with the same stack and the same source. -/
theorem walk_prunes_branch {branch : Word} (hb : Balanced branch) (hp : '+' ∉ branch)
    (hm : '-' ∉ branch) (params : Params α) (initial : State α) (source : ρ) (source' : ρ')
    (u v : Word) :
    let start : Walker α ρ := ⟨.ofState initial, source⟩
    let fork := walk params Array.push u start #[]
    let state := fork.1.stack.current
    let twig := walk params Array.push branch (⟨.ofState state, source'⟩ : Walker α ρ') #[]
    let rest := walk params Array.push v fork.1 #[]
    walk params Array.push (u ++ v) start #[] = (rest.1, fork.2 ++ rest.2) ∧
      walk params Array.push (u ++ '[' :: (branch ++ ']' :: v)) start #[] =
        (rest.1, fork.2 ++ twig.2.push (.marker state.position params.palette.restore) ++
          rest.2) := by
  intro start fork state twig rest
  constructor
  · simp [rest, fork, walk_push]
  · have hword : u ++ '[' :: (branch ++ ']' :: v) = u ++ '[' :: (branch ++ [']']) ++ v := by simp
    obtain ⟨ha, hd⟩ := turnless_branch_returns hb hp hm params (start.after params u) source'
    rw [hword, walk_push, Walker.after_append, Walker.drawn_append, Walker.after_append,
      Walker.drawn_append, ha, hd]
    simp [rest, twig, state, fork, walk_push]

theorem walk_prunes_branch_nested :
    let branch : Word := ['F', '[', 'F', ']']
    let start : Walker Float Xorshift := ⟨.ofState .standard, .default⟩
    let fork := walk Params.standard Array.push ['[', '+'] start #[]
    let state := fork.1.stack.current
    let twig := walk Params.standard Array.push branch
      (⟨.ofState state, .default⟩ : Walker Float Xorshift) #[]
    let rest := walk Params.standard Array.push ['F', ']', ']'] fork.1 #[]
    Balanced branch ∧ '+' ∉ branch ∧ '-' ∉ branch ∧
      walk Params.standard Array.push ['[', '+', '[', 'F', '[', 'F', ']', ']', 'F', ']', ']'] start
        #[] = (rest.1, fork.2 ++
          twig.2.push (.marker state.position Params.standard.palette.restore) ++ rest.2) := by
  intro branch start fork state twig rest
  have hb : Balanced branch :=
    (Balanced.singleton (by decide) (by decide)).append
      (Balanced.singleton (by decide) (by decide)).enclose
  have hp : '+' ∉ branch := by decide
  have hm : '-' ∉ branch := by decide
  exact ⟨hb, hp, hm, (walk_prunes_branch hb hp hm Params.standard State.standard
    Xorshift.default Xorshift.default ['[', '+'] ['F', ']', ']']).2⟩

end Arbor.Turtle
