import Mathlib
import Arbor.Proofs.Turtle.Draws
import Arbor.Proofs.Turtle.Spine
import Arbor.Proofs.Vec3.Unit

/-! # Headings of a walk

In exact arithmetic no heading ever changes its length. A turn puts the heading on the cone of the
angle around the upward direction, and both stay together from then on, on branches too.
-/

namespace Arbor.Turtle

open Vec3
open scoped Trigonometry

section Trigonometry

variable {ρ : Type} [Trigonometry] [RandomSource ρ ℝ] {params : Params ℝ}

/-- A heading of unit length that lies on the cone of the angle if a word has turns. -/
structure State.Headed (s : State ℝ) (word : Word) : Prop where
  unit : s.direction.length = 1
  cone : 0 < turns word → s.direction.y = Geometric.cos (radians s.angle)

theorem headed_turn (s : State ℝ) (degrees azimuth : ℝ) (word : Word) :
    (s.turn degrees azimuth).Headed word := by
  have hunit := length_ofSpherical (radians (s.angle + degrees)) azimuth
  have hdirection : (s.turn degrees azimuth).direction =
      ofSpherical (radians (s.angle + degrees)) azimuth := normalize_eq_self hunit
  constructor
  · rw [hdirection, hunit]
  · intro _
    rw [hdirection]
    rfl

theorem headed_advance {s : State ℝ} {word : Word} (h : s.Headed word) :
    (s.advance params).Headed (word ++ ['F']) := by
  constructor
  · exact h.unit
  · intro ht
    rw [turns_append] at ht
    exact h.cone ht

theorem headed_step (w : Walker ℝ ρ) (c : Char) (word : Word) (hc : changesMeasures c = true)
    (hw : w.stack.current.Headed word) :
    (step params w c).2.stack.current.Headed (word ++ [c]) := by
  obtain rfl | rfl | rfl := changesMeasures_iff.mp hc
  · exact headed_advance hw
  · exact headed_turn ..
  · exact headed_turn ..

/-- The words after which a walk met the entries of its stack, from the top down. -/
def entryWords (word : Word) : List Word := word :: (openBrackets word).map word.take

section Walk

variable {start : Walker ℝ ρ}

theorem toList_after (params : Params ℝ) (hs : start.stack.saved = []) (word : Word) :
    (start.after params word).stack.toList =
      (entryWords word).map fun u => (start.after params u).stack.current := by
  rw [Stack.toList, saved_after params hs word, entryWords, List.map_cons, List.map_map]
  rfl

theorem headed_after (params : Params ℝ) (hs : start.stack.saved = [])
    (h : start.stack.current.direction.length = 1) (word : Word) :
    (start.after params word).stack.current.Headed (spine word) :=
  current_after_spine hs ⟨h, fun ht => absurd ht (by decide)⟩ headed_step word

theorem arrow_of_mem_step {w : Walker ℝ ρ} {c : Char} {o d : Vec3 ℝ} {l : ℝ} {color : Color}
    (h : Event.arrow o d l color ∈ (step params w c).1) :
    d = w.stack.current.direction.normalize := by
  cases hc : Command.ofSymbol? c with
  | none => simp [step, hc] at h
  | some command =>
    cases command with
    | advance =>
      simp only [step, hc, obey, State.segment, List.mem_cons, reduceCtorEq, Event.arrow.injEq,
        List.not_mem_nil, or_false, false_or] at h
      exact h.2.1
    | pop =>
      simp only [step, hc, obey, restore] at h
      split at h <;> simp at h
    | _ => simp [step, hc, obey] at h

theorem unit_of_mem_drawn (hs : start.stack.saved = [])
    (h : start.stack.current.direction.length = 1) {word : Word} {o d : Vec3 ℝ} {l : ℝ}
    {color : Color} (he : Event.arrow o d l color ∈ start.drawn params word) : d.length = 1 := by
  induction word using List.reverseRecOn with
  | nil => cases he
  | append_singleton word c ih =>
    rw [Walker.drawn_append, Walker.drawn_singleton] at he
    rcases List.mem_append.mp he with he | he
    · exact ih he
    · have hunit := (headed_after params hs h word).unit
      rw [arrow_of_mem_step he, normalize_eq_self hunit, hunit]

end Walk

/-- A walk that begins with a heading of unit length keeps it so. Whatever it draws, each entry of
its stack has such a heading after each symbol, on the cone of its angle if there are turns on the
spine of the word that leads to the entry. And each arrow is as long as its length says. -/
theorem walk_keeps_headings (params : Params ℝ) {initial : State ℝ}
    (h : initial.direction.length = 1) (source : ρ) (word : Word) :
    let walked u := walk params Array.push u (⟨.ofState initial, source⟩ : Walker ℝ ρ) #[]
    (∀ k, (walked (word.take k)).1.stack.toList =
        (entryWords (word.take k)).map fun u => (walked u).1.stack.current) ∧
      (∀ k, List.Forall₂ State.Headed (walked (word.take k)).1.stack.toList
        ((entryWords (word.take k)).map spine)) ∧
      ∀ o d l color, Event.arrow o d l color ∈ (walked word).2 →
        d.length = 1 ∧ (o + d.scale l - o).length = |l| := by
  intro walked
  let start : Walker ℝ ρ := ⟨.ofState initial, source⟩
  have hs : start.stack.saved = [] := rfl
  simp only [walked, walk_push]
  refine ⟨fun k => toList_after params hs _, fun k => ?_, fun o d l color he => ?_⟩
  · rw [toList_after params hs, List.forall₂_map_left_iff, List.forall₂_map_right_iff,
      List.forall₂_same]
    exact fun u _ => headed_after params hs h u
  · have hunit := unit_of_mem_drawn hs h (List.mem_toArray.mp he)
    rw [Vec3.add_sub_cancel, length_scale, hunit, one_mul]
    exact ⟨rfl, rfl⟩

end Trigonometry

theorem walk_keeps_headings_branch :
    letI := Trigonometry.real
    let initial : State ℝ := ⟨.zero, .up, 1, 1, 0⟩
    let final := walk ⟨0.9, 0.9, 20, .standard⟩ Array.push ['+', '[', 'F']
      (⟨.ofState initial, ⟨#[0.5], 0⟩⟩ : Walker ℝ (Script ℝ)) #[]
    initial.direction.length = 1 ∧
      List.Forall₂ State.Headed final.1.stack.toList [['+', 'F'], ['+']] := by
  let _ := Trigonometry.real
  intro initial final
  have hunit : initial.direction.length = 1 := by
    rw [length_eq_one_iff, dot_real]
    change (0 : ℝ) * 0 + 1 * 1 + 0 * 0 = 1
    norm_num
  have hspines : (entryWords ['+', '[', 'F']).map spine = [['+', 'F'], ['+']] := by decide
  have hheaded := (walk_keeps_headings ⟨0.9, 0.9, 20, .standard⟩ hunit
    (⟨#[0.5], 0⟩ : Script ℝ) ['+', '[', 'F']).2.1 3
  rw [← hspines]
  exact ⟨hunit, hheaded⟩

end Arbor.Turtle
