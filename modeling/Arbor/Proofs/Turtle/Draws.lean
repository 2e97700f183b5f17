import Arbor.Proofs.Random.Draws
import Arbor.Proofs.Turtle.Walk

/-! # What a walk draws

Only turns draw, one azimuth each.
-/

namespace Arbor.Turtle

open RandomSource

variable {α ρ : Type} [Geometric α] [RandomSource ρ α]

def turns (word : Word) : Nat := word.count '+' + word.count '-'

theorem turns_append (u v : Word) : turns (u ++ v) = turns u + turns v := by
  simp only [turns, List.count_append]
  omega

theorem source_step (params : Params α) (w : Walker α ρ) (c : Char) :
    (step params w c).2.source = skip α (turns [c]) w.source := by
  cases h : Command.ofSymbol? c with
  | none =>
    have hp : c ≠ '+' := Command.ne_symbol_of_ofSymbol?_eq_none h .turnPositive
    have hm : c ≠ '-' := Command.ne_symbol_of_ofSymbol?_eq_none h .turnNegative
    simp [step, h, turns, hp, hm]
  | some command =>
    obtain rfl := Command.ofSymbol?_eq_some_iff.mp h
    cases command <;> rfl

theorem source_after (params : Params α) (w : Walker α ρ) (word : Word) :
    (w.after params word).source = skip α (turns word) w.source := by
  induction word generalizing w with
  | nil => rfl
  | cons c rest ih =>
    rw [Walker.after, ih, source_step, ← skip_add, ← turns_append, List.singleton_append]

/-! ## Counting while walking -/

def Walker.uncounted (w : Walker α (Counted ρ)) : Walker α ρ := ⟨w.stack, w.source.source⟩

theorem step_counted (params : Params α) (w : Walker α (Counted ρ)) (c : Char) :
    (step params w c).1 = (step params w.uncounted c).1 ∧
      (step params w c).2.uncounted = (step params w.uncounted c).2 := by
  simp only [step]
  cases Command.ofSymbol? c with
  | none => exact ⟨rfl, rfl⟩
  | some command => cases command <;> exact ⟨rfl, rfl⟩

theorem drawn_counted (params : Params α) (w : Walker α (Counted ρ)) (word : Word) :
    w.drawn params word = w.uncounted.drawn params word := by
  induction word generalizing w with
  | nil => rfl
  | cons c rest ih =>
    obtain ⟨he, hw⟩ := step_counted params w c
    rw [Walker.drawn, Walker.drawn, ih, he, hw]

end Arbor.Turtle
