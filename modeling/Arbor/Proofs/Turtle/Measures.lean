import Arbor.Proofs.Turtle.Walk

/-! # What does not depend on places

The measures of a turtle are its length, radius and angle. Neither they nor what its events
look like depend on where the turtle is, on where it looks or on what it draws from.
-/

namespace Arbor

/-- An event without its place. -/
inductive Look (α : Type) where
  | point (color : Color)
  | marker (color : Color)
  | arrow (length : α) (color : Color)
  deriving DecidableEq, Repr

def Event.look {α : Type} : Event α → Look α
  | point _ c => .point c
  | marker _ c => .marker c
  | arrow _ _ l c => .arrow l c

namespace Turtle

variable {α ρ ρ' : Type}

def State.measures (s : State α) : α × α × α := (s.length, s.radius, s.angle)

def Stack.measures (s : Stack α) : List (α × α × α) := s.toList.map State.measures

theorem State.measures_eq_iff {s t : State α} :
    s.measures = t.measures ↔ s.length = t.length ∧ s.radius = t.radius ∧ s.angle = t.angle := by
  simp only [measures, Prod.mk.injEq]

theorem Stack.measures_eq_iff {s t : Stack α} :
    s.measures = t.measures ↔ s.current.measures = t.current.measures ∧
      s.saved.map State.measures = t.saved.map State.measures := by
  simp only [measures, toList, List.map_cons, List.cons.injEq]

theorem Stack.size_eq_of_measures {s t : Stack α} (h : s.measures = t.measures) :
    s.size = t.size := by
  have hl := congrArg List.length h
  simpa only [measures, toList, List.length_map, List.length_cons, size, depth] using hl

theorem measures_restore (params : Params α) {s t : Stack α} (h : s.measures = t.measures) :
    (restore params s).1.look = (restore params t).1.look ∧
      (restore params s).2.measures = (restore params t).2.measures := by
  obtain ⟨_, hs⟩ := Stack.measures_eq_iff.mp h
  obtain ⟨cs, ss⟩ := s
  obtain ⟨ct, st⟩ := t
  -- A saved state is found on both stacks or on neither.
  cases ss with
  | nil =>
    obtain rfl := List.map_eq_nil_iff.mp hs.symm
    exact ⟨rfl, h⟩
  | cons top rest =>
    obtain ⟨top', rest', rfl, ht, hr⟩ := List.map_eq_cons_iff.mp hs.symm
    exact ⟨rfl, Stack.measures_eq_iff.mpr ⟨ht.symm, hr.symm⟩⟩

variable [Geometric α] [RandomSource ρ α] [RandomSource ρ' α]

theorem measures_step (params : Params α) {w : Walker α ρ} {w' : Walker α ρ'}
    (h : w.stack.measures = w'.stack.measures) (c : Char) :
    (step params w c).1.map Event.look = (step params w' c).1.map Event.look ∧
      (step params w c).2.stack.measures = (step params w' c).2.stack.measures := by
  obtain ⟨hc, hs⟩ := Stack.measures_eq_iff.mp h
  obtain ⟨hl, hr, ha⟩ := State.measures_eq_iff.mp hc
  simp only [step]
  cases Command.ofSymbol? c with
  | none => exact ⟨rfl, h⟩
  | some command =>
    cases command with
    | advance =>
      refine ⟨?_, Stack.measures_eq_iff.mpr ⟨State.measures_eq_iff.mpr ⟨?_, ?_, ha⟩, hs⟩⟩
      · simp only [obey, State.segment, List.map_cons, List.map_nil, Event.look, hl]
      · exact congrArg (· * params.lengthDecay) hl
      · exact congrArg (· * params.radiusDecay) hr
    | turnPositive =>
      exact ⟨rfl, Stack.measures_eq_iff.mpr
        ⟨State.measures_eq_iff.mpr ⟨hl, hr, congrArg (· + params.angleOffset) ha⟩, hs⟩⟩
    | turnNegative =>
      exact ⟨rfl, Stack.measures_eq_iff.mpr
        ⟨State.measures_eq_iff.mpr ⟨hl, hr, congrArg (· + -params.angleOffset) ha⟩, hs⟩⟩
    | push => exact ⟨rfl, Stack.measures_eq_iff.mpr ⟨hc, h⟩⟩
    | pop =>
      obtain ⟨he, hm⟩ := measures_restore params h
      exact ⟨congrArg ([·]) he, hm⟩

theorem measures_after (params : Params α) {w : Walker α ρ} {w' : Walker α ρ'}
    (h : w.stack.measures = w'.stack.measures) (word : Word) :
    (w.drawn params word).map Event.look = (w'.drawn params word).map Event.look ∧
      (w.after params word).stack.measures = (w'.after params word).stack.measures := by
  induction word generalizing w w' with
  | nil => exact ⟨rfl, h⟩
  | cons c rest ih =>
    obtain ⟨he, hm⟩ := measures_step params h c
    obtain ⟨hes, hms⟩ := ih hm
    refine ⟨?_, hms⟩
    rw [Walker.drawn, Walker.drawn, List.map_append, List.map_append, he, hes]

end Turtle

end Arbor
