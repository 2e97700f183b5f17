import Arbor.Proofs.Turtle.Walk
import Mathlib.Data.List.Induction

/-! # The trail of a walk

The events of a walk lie on one path: each segment begins where the event before it ends. Only
markers leave the path, and it goes on from where they are.
-/

namespace Arbor

variable {α ρ : Type}

/-- The place where a list of events ends, if nothing is drawn the place where it begins. -/
def Event.endOf [Scalar α] (start : Vec3 α) (events : List (Event α)) : Vec3 α :=
  (events.getLast?.map fun e => e.extent.2).getD start

namespace Turtle

variable [Geometric α] [RandomSource ρ α] {params : Params α} {palette : Palette}

/-- The events that a symbol draws from a place. -/
inductive Leg (palette : Palette) (p : Vec3 α) : Char → List (Event α) → Prop
  | segment {q direction : Vec3 α} {length : α} :
      (Event.arrow p direction length palette.arrow).extent = (p, q) →
      Leg palette p 'F' [.point p palette.point, .point q palette.point,
        .arrow p direction length palette.arrow]
  | jump {q : Vec3 α} {color : Color} :
      color = palette.restore ∨ color = palette.unmatchedRestore →
      Leg palette p ']' [.marker q color]
  | still {c : Char} : c ≠ 'F' → c ≠ ']' → Leg palette p c []

/-- The events that the symbols of a word draw in order, each from where the last one ended. -/
inductive Trail (palette : Palette) (start : Vec3 α) : Word → List (Event α) → Prop
  | nil : Trail palette start [] []
  | snoc {word : Word} {events drawn : List (Event α)} {c : Char} :
      Trail palette start word events → Leg palette (Event.endOf start events) c drawn →
      Trail palette start (word ++ [c]) (events ++ drawn)

theorem endOf_append (start : Vec3 α) (events drawn : List (Event α)) :
    Event.endOf start (events ++ drawn) = Event.endOf (Event.endOf start events) drawn := by
  cases drawn using List.reverseRecOn with
  | nil => simp [Event.endOf]
  | append_singleton drawn e => simp [Event.endOf, ← List.append_assoc]

theorem leg_step (params : Params α) (w : Walker α ρ) (c : Char) :
    Leg params.palette w.stack.current.position c (step params w c).1 ∧
      (step params w c).2.stack.current.position =
        Event.endOf w.stack.current.position (step params w c).1 := by
  cases h : Command.ofSymbol? c with
  | none =>
    have hne := Command.ne_symbol_of_ofSymbol?_eq_none h
    simp only [step, h]
    exact ⟨.still (hne .advance) (hne .pop), rfl⟩
  | some command =>
    obtain rfl := Command.ofSymbol?_eq_some_iff.mp h
    cases command with
    | advance => exact ⟨.segment rfl, rfl⟩
    | pop =>
      cases hs : w.stack.saved with
      | nil =>
        rw [Command.symbol, step_pop_of_saved_eq_nil hs]
        exact ⟨.jump (.inr rfl), rfl⟩
      | cons top rest =>
        rw [Command.symbol, step_pop_of_saved_eq_cons hs]
        exact ⟨.jump (.inl rfl), rfl⟩
    | _ => exact ⟨.still (by decide) (by decide), rfl⟩

theorem trail_drawn (params : Params α) (start : Walker α ρ) (word : Word) :
    Trail params.palette start.stack.current.position word (start.drawn params word) ∧
      (start.after params word).stack.current.position =
        Event.endOf start.stack.current.position (start.drawn params word) := by
  induction word using List.reverseRecOn with
  | nil => exact ⟨.nil, rfl⟩
  | append_singleton word c ih =>
    obtain ⟨ht, hp⟩ := ih
    obtain ⟨hl, hq⟩ := leg_step params (start.after params word) c
    rw [hp] at hl hq
    rw [Walker.drawn_append, Walker.drawn_singleton, Walker.after_append, Walker.after_singleton,
      endOf_append]
    exact ⟨ht.snoc hl, hq⟩

/-- A walk draws, symbol by symbol, a segment for each advance and a marker for each closing
bracket. Each segment begins where the event before it ends, the first one where the walk
begins, and the walk ends where its last event does. -/
theorem walk_draws_trail (params : Params α) (initial : State α) (source : ρ) (word : Word) :
    let final := walk params Array.push word (⟨.ofState initial, source⟩ : Walker α ρ) #[]
    Trail params.palette initial.position word final.2.toList ∧
      final.1.stack.current.position = Event.endOf initial.position final.2.toList := by
  intro final
  simp only [final, walk_push]
  exact trail_drawn params (⟨.ofState initial, source⟩ : Walker α ρ) word

end Turtle

end Arbor
