import Arbor.Proofs.Generation.Departure
import Arbor.Proofs.Turtle.Checked
import Arbor.Proofs.Turtle.Range

/-! # Runs within the range of machine numbers

Checked parameters are finite, but a run may leave the range of machine numbers. Its events stay
finite as long as its turtle does, and so they do if the lengths of its segments stay moderate.
-/

namespace Arbor.Generation

open Binary64 Turtle

variable {g : Grammar} {p : Params}

/-- The events of a run, with given functions in place of sine and cosine. -/
def eventsWith (sin cos : Float → Float) (g : Grammar) (p : Params) :
    Except GenerationError (List (Event Float)) :=
  (departure g p).map fun departed => departed.1.drawnWith sin cos p.turtle departed.2

theorem eventsWith_sin_cos (g : Grammar) (p : Params) :
    eventsWith Float.sin Float.cos g p = (events g p).map Array.toList := by
  cases h : departure g p with
  | error e =>
    rw [eventsWith, h, (run_of_error h).2.1]
    rfl
  | ok departed =>
    rw [eventsWith, h, (run_of_ok h).2.1]
    rfl

/-- Parameters whose length and factor on it are below given powers of two, beside places and
angles that absorb them. -/
structure Params.Below (p : Params) (a : ℤ) (b : ℕ) : Prop where
  length_le : |value p.initial.length| ≤ 2 ^ a
  decay_le : |value p.turtle.lengthDecay| ≤ 2 ^ b
  place : p.initial.position.Within (2 ^ (1023 : ℤ))
  angle_le : |value p.initial.angle| ≤ 2 ^ (1023 : ℤ)
  offset_le : |value p.turtle.angleOffset| ≤ 2 ^ (969 : ℤ)

def Params.Moderate (p : Params) (segments : ℕ) : Prop :=
  ∃ (a : ℤ) (b : ℕ), -1074 ≤ a ∧ a + b * segments ≤ 968 ∧ p.Below a b

theorem inRange_of_departure {start : Walker Float Xorshift} {word : Word}
    (h : departure g p = .ok (start, word)) :
    (∀ s ∈ start.stack.toList, s.InRange ∧
      s = { p.initial with direction := p.initial.direction.normalize }) ∧
      p.turtle.lengthDecay.isFinite = true ∧ p.turtle.angleOffset.isFinite = true := by
  obtain ⟨grown, hg, -, rfl⟩ := departure_eq_ok_iff.mp h
  obtain ⟨generator, hv, -⟩ := grow_eq_ok_iff.mp hg
  obtain ⟨-, ht, hi, -⟩ := Params.validate_eq_ok_iff.mp hv
  obtain ⟨hfin, -, hinitial⟩ := validated_eq_ok_iff.mp hi
  refine ⟨List.forall_mem_singleton.mpr ⟨?_, hinitial⟩, Turtle.Params.isFinite_of_validate ht⟩
  rw [Stack.ofState, hinitial]
  exact ⟨⟨hfin.position, hfin.length, hfin.angle⟩,
    (Vec3.normalize_isFinite_within hfin.direction).1⟩

theorem measured_of_moderate {sin cos : Float → Float} (hsin : Circular sin) (hcos : Circular cos)
    {start : Walker Float Xorshift} {word : Word} (h : departure g p = .ok (start, word))
    (hm : p.Moderate (word.count 'F')) (i : ℕ) :
    (start.afterWith sin cos p.turtle (word.take i)).stack.current.Measured := by
  obtain ⟨a, b, ha, hab, hlength, hdecay, hplace, hangle, hoffset⟩ := hm
  obtain ⟨hstart, hfd, hfo⟩ := inRange_of_departure h
  have hcount : (b : ℤ) * (word.take i).count 'F' ≤ b * word.count 'F' := by
    exact_mod_cast Nat.mul_le_mul_left b ((List.take_sublist i word).count_le 'F')
  have hall : ∀ s ∈ start.stack.toList, s.Bounded a := by
    intro s hs
    obtain ⟨hrange, rfl⟩ := hstart s hs
    exact ⟨hrange, hplace, hlength, hangle⟩
  have hbounded := bounded_afterWith hsin hcos ⟨hfd, hdecay, hfo, hoffset⟩ hall ha
    (word.take i) (by omega)
  exact (hbounded _ List.mem_cons_self).toInRange.toMeasured

/-- The events of a run are finite as long as its turtle has a finite place, length and angle.
Moderate parameters make sure of that, for any word if segments do not get longer. -/
theorem drawable_events {sin cos : Float → Float} (hsin : Circular sin) (hcos : Circular cos)
    (g : Grammar) (p : Params) :
    eventsWith Float.sin Float.cos g p = (events g p).map Array.toList ∧
    ∀ start word, departure g p = .ok (start, word) →
      eventsWith sin cos g p = .ok (start.drawnWith sin cos p.turtle word) ∧
      ((∀ i ≤ word.length,
          (start.afterWith sin cos p.turtle (word.take i)).stack.current.Measured) →
        ∀ e ∈ start.drawnWith sin cos p.turtle word, ∀ x ∈ e.numbers, x.isFinite = true) ∧
      (p.Moderate (word.count 'F') →
        ∀ e ∈ start.drawnWith sin cos p.turtle word, ∀ x ∈ e.numbers, x.isFinite = true) := by
  refine ⟨eventsWith_sin_cos g p, fun start word h => ?_⟩
  have hrange : ∀ s ∈ start.stack.toList, s.InRange :=
    fun s hs => ((inRange_of_departure h).1 s hs).1
  refine ⟨?_, fun hm => drawable_drawnWith p.turtle hsin hcos hrange word hm, fun hm => ?_⟩
  · rw [eventsWith, h]
    rfl
  · exact drawable_drawnWith p.turtle hsin hcos hrange word
      fun i _ => measured_of_moderate hsin hcos h hm i

def forked : Grammar where
  start := ['F']
  rules := [⟨'F', ['F', '[', '+', 'F', ']', 'F'], 1⟩]
  start_ne_nil := by decide
  rules_ne_nil := by decide
  weighs := by decide

def twice : Params := { Params.standard with iterations := 2 }

theorem twice_moderate (segments : ℕ) : twice.Moderate segments := by
  have hlength : parts? twice.initial.length = some ⟨false, 2 ^ 52, -53⟩ := by decide
  have hdecay : parts? twice.turtle.lengthDecay = some ⟨false, 8106479329266893, -53⟩ := by
    decide
  have hoffset : parts? twice.turtle.angleOffset = some ⟨false, 5629499534213120, -48⟩ := by
    decide
  have hzero : |value (0 : Float)| ≤ 2 ^ (1023 : ℤ) := by
    rw [value_zero, abs_zero]
    positivity
  refine ⟨0, 0, by norm_num, by norm_num, ?_, ?_, ⟨hzero, hzero, hzero⟩, hzero, ?_⟩
  · rw [value_of_parts hlength]
    norm_num [Parts.value, Parts.factor, Parts.magnitude, abs_le]
  · rw [value_of_parts hdecay]
    norm_num [Parts.value, Parts.factor, Parts.magnitude, abs_le]
  · have hle : |value twice.turtle.angleOffset| ≤ 2 ^ (5 : ℤ) := by
      rw [value_of_parts hoffset]
      norm_num [Parts.value, Parts.factor, Parts.magnitude, abs_le]
    exact hle.trans (zpow_le_zpow_right₀ one_le_two (by norm_num))

/-- A sine by which every turn is a right angle, to the side that the angle's sign tells. -/
def rightSine (x : Float) : Float := if x < 0 then -1 else 1

theorem circular_rightSine : Circular rightSine := by
  obtain ⟨hfin, hval⟩ : (1 : Float).isFinite = true ∧ value 1 = (1 : ℕ) :=
    ofNat_of_lt (by norm_num)
  intro x _
  rw [rightSine]
  split
  · obtain ⟨hneg, hvalue⟩ := neg_of_isFinite hfin
    exact ⟨hneg, by rw [hvalue, hval, Nat.cast_one, abs_neg, abs_one]⟩
  · exact ⟨hfin, by rw [hval, Nat.cast_one, abs_one]⟩

theorem circular_zero : Circular fun _ => 0 :=
  fun _ _ => ⟨isFinite_zero, by rw [value_zero, abs_zero]; exact zero_le_one⟩

theorem drawable_events_forked :
    Circular rightSine ∧ Circular (fun _ => 0) ∧ ∃ start word,
      departure forked twice = .ok (start, word) ∧ word.count 'F' = 16 ∧ word.count '+' = 6 ∧
        twice.Moderate (word.count 'F') ∧
        ∀ e ∈ start.drawnWith rightSine (fun _ => 0) twice.turtle word,
          ∀ x ∈ e.numbers, x.isFinite = true := by
  have hcounts : (departure forked twice).toOption.map
      (fun d => (d.2.count 'F', d.2.count '+')) = some (16, 6) := by
    decide +kernel
  obtain ⟨⟨start, word⟩, h, hc⟩ := exists_eq_ok_of_map hcounts
  obtain ⟨hsegments, hturns⟩ := Prod.mk.inj hc
  have hmoderate := twice_moderate (word.count 'F')
  have hfinite := ((drawable_events circular_rightSine circular_zero forked twice).2 start word
    h).2.2 hmoderate
  exact ⟨circular_rightSine, circular_zero, start, word, h, hsegments, hturns, hmoderate, hfinite⟩

def soaring : Params :=
  { Params.standard with
    iterations := 0
    initial := { Turtle.State.standard with length := 1e308 }
    turtle := { Turtle.Params.standard with lengthDecay := 10 } }

def stretch : Grammar where
  start := ['F', 'F']
  rules := [⟨'X', [], 1⟩]
  start_ne_nil := by decide
  rules_ne_nil := by decide
  weighs := by decide

/-- Checked parameters do not keep the events of a run finite. -/
theorem soaring_events_overflow :
    ¬∀ (g : Grammar) (p : Params) (drawn : Array (Event Float)), events g p = .ok drawn →
      ∀ e ∈ drawn.toList, ∀ x ∈ e.numbers, x.isFinite = true := by
  intro h
  have hleak : ((events stretch soaring).toOption.any fun drawn =>
      drawn.toList.any fun e => e.numbers.any fun x => !x.isFinite) = true := by decide +kernel
  cases hd : events stretch soaring with
  | error e =>
    rw [hd] at hleak
    cases hleak
  | ok drawn =>
    rw [hd] at hleak
    obtain ⟨e, he, hx⟩ := List.any_eq_true.mp hleak
    obtain ⟨x, hmem, hfin⟩ := List.any_eq_true.mp hx
    rw [h stretch soaring drawn hd e he x hmem] at hfin
    cases hfin

end Arbor.Generation
