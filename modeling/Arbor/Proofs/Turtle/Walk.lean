import Arbor.Event.Summary
import Arbor.Turtle.Walk

/-! # The end of a walk and its events

Where a walk ends and what it draws does not depend on the sink, and both can be told
part by part.
-/

namespace Arbor.Turtle

variable {α ρ σ : Type} [Geometric α] [RandomSource ρ α]

namespace Walker

def after (params : Params α) : Walker α ρ → Word → Walker α ρ
  | w, [] => w
  | w, c :: rest => after params (step params w c).2 rest

def drawn (params : Params α) : Walker α ρ → Word → List (Event α)
  | _, [] => []
  | w, c :: rest => (step params w c).1 ++ drawn params (step params w c).2 rest

variable (params : Params α) (w : Walker α ρ)

@[simp] theorem after_append (u v : Word) :
    w.after params (u ++ v) = (w.after params u).after params v := by
  induction u generalizing w with
  | nil => rfl
  | cons c u ih => exact ih _

@[simp] theorem drawn_append (u v : Word) :
    w.drawn params (u ++ v) = w.drawn params u ++ (w.after params u).drawn params v := by
  induction u generalizing w with
  | nil => rfl
  | cons c u ih => simp only [List.cons_append, drawn, after, ih, List.append_assoc]

theorem after_singleton (c : Char) : w.after params [c] = (step params w c).2 := rfl

theorem drawn_singleton (c : Char) : w.drawn params [c] = (step params w c).1 :=
  List.append_nil _

end Walker

theorem walk_eq (params : Params α) (emit : σ → Event α → σ) (word : Word) (w : Walker α ρ)
    (sink : σ) :
    walk params emit word w sink =
      (w.after params word, (w.drawn params word).foldl emit sink) := by
  induction word generalizing w sink with
  | nil => rfl
  | cons c rest ih => simp only [walk, Walker.after, Walker.drawn, List.foldl_append, ih]

theorem walk_push (params : Params α) (word : Word) (w : Walker α ρ) :
    walk params Array.push word w #[] = (w.after params word, (w.drawn params word).toArray) := by
  rw [walk_eq]
  simp

/-! ## What one symbol does to the stack -/

section Step

variable {params : Params α} {w : Walker α ρ}

theorem step_push : step params w '[' = ([], { w with stack := w.stack.push }) := rfl

theorem step_pop_of_saved_eq_nil (h : w.stack.saved = []) :
    step params w ']' =
      ([.marker w.stack.current.position params.palette.unmatchedRestore], w) := by
  simp only [step, Command.ofSymbol?, obey, restore, Stack.pop?, h]

theorem step_pop_of_saved_eq_cons {top : State α} {rest : List (State α)}
    (h : w.stack.saved = top :: rest) :
    step params w ']' =
      ([.marker top.position params.palette.restore], { w with stack := ⟨top, rest⟩ }) := by
  simp only [step, Command.ofSymbol?, obey, restore, Stack.pop?, h]

theorem saved_step_of_ne {c : Char} (hl : c ≠ '[') (hr : c ≠ ']') :
    (step params w c).2.stack.saved = w.stack.saved := by
  cases h : Command.ofSymbol? c with
  | none => simp only [step, h]
  | some command =>
    obtain rfl := Command.ofSymbol?_eq_some_iff.mp h
    cases command with
    | push => exact absurd rfl hl
    | pop => exact absurd rfl hr
    | _ => rfl

end Step

/-! ## How much a walk draws -/

/-- A segment draws two points and an arrow, a restore a marker, all else nothing. -/
theorem counts_foldl_step (params : Params α) (w : Walker α ρ) (c : Char) (s : Summary α) :
    ((step params w c).1.foldl Summary.add s).points = s.points + 2 * [c].count 'F' ∧
      ((step params w c).1.foldl Summary.add s).arrows = s.arrows + [c].count 'F' ∧
      ((step params w c).1.foldl Summary.add s).markers = s.markers + [c].count ']' := by
  cases h : Command.ofSymbol? c with
  | none =>
    have hF : c ≠ 'F' := Command.ne_symbol_of_ofSymbol?_eq_none h .advance
    have hr : c ≠ ']' := Command.ne_symbol_of_ofSymbol?_eq_none h .pop
    simp [step, h, hF, hr]
  | some command =>
    obtain rfl := Command.ofSymbol?_eq_some_iff.mp h
    cases command with
    | pop =>
      cases hs : w.stack.saved with
      | nil =>
        rw [Command.symbol, step_pop_of_saved_eq_nil hs]
        exact ⟨rfl, rfl, rfl⟩
      | cons top rest =>
        rw [Command.symbol, step_pop_of_saved_eq_cons hs]
        exact ⟨rfl, rfl, rfl⟩
    | _ => exact ⟨rfl, rfl, rfl⟩

theorem counts_foldl_drawn (params : Params α) (w : Walker α ρ) (word : Word) (s : Summary α) :
    ((w.drawn params word).foldl Summary.add s).points = s.points + 2 * word.count 'F' ∧
      ((w.drawn params word).foldl Summary.add s).arrows = s.arrows + word.count 'F' ∧
      ((w.drawn params word).foldl Summary.add s).markers = s.markers + word.count ']' := by
  induction word generalizing w s with
  | nil => exact ⟨rfl, rfl, rfl⟩
  | cons c word ih =>
    obtain ⟨hp, ha, hm⟩ := counts_foldl_step params w c s
    obtain ⟨ihp, iha, ihm⟩ := ih (step params w c).2 ((step params w c).1.foldl Summary.add s)
    rw [Walker.drawn, List.foldl_append, ihp, iha, ihm, hp, ha, hm]
    simp only [List.count_cons, List.count_nil]
    omega

theorem counts_ofEvents_drawn (params : Params α) (w : Walker α ρ) (word : Word) :
    (Summary.ofEvents (w.drawn params word)).points = 2 * word.count 'F' ∧
      (Summary.ofEvents (w.drawn params word)).arrows = word.count 'F' ∧
      (Summary.ofEvents (w.drawn params word)).markers = word.count ']' := by
  simpa only [Summary.ofEvents, Summary.empty, Nat.zero_add] using
    counts_foldl_drawn params w word .empty

end Arbor.Turtle
