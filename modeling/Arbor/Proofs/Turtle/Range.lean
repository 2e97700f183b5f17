import Arbor.Proofs.Event.Json
import Arbor.Proofs.Random.Rounded
import Arbor.Proofs.Turtle.Restore
import Arbor.Proofs.Vec3.Normalize

/-! # Walks within the range of machine numbers

A walk draws finite numbers as long as its turtle has a finite place, length and angle. The
heading takes care of itself: it is scaled before each use, and each turn makes a new one. Lengths
change with each segment, but places and angles stay below a power of two that absorbs all steps.
-/

namespace Arbor

open Binary64

/-- Machine numbers with given functions in place of sine and cosine. -/
@[reducible] def geometry (sin cos : Float → Float) : Geometric Float where
  sqrt := Float.sqrt
  sin := sin
  cos := cos
  pi := Geometric.pi

/-- A function that stays between minus one and one on finite numbers. -/
def Circular (f : Float → Float) : Prop :=
  ∀ x, x.isFinite = true → (f x).isFinite = true ∧ |value (f x)| ≤ 1

/-! ## Azimuths -/

section Azimuth

theorem isFinite_unit (x : UInt32) :
    (Xorshift.unit x : Float).isFinite = true ∧
      |value (Xorshift.unit x : Float)| ≤ 2 ^ (0 : ℤ) := by
  obtain ⟨hfin, hlow, hhigh⟩ := Xorshift.unit_mem_of_rounded x
  refine ⟨hfin, ?_⟩
  rw [abs_of_nonneg hlow, zpow_zero]
  exact hhigh.trans (by norm_num)

theorem isFinite_azimuth (g : Xorshift) :
    (RandomSource.drawBetween 0 (Scalar.ofInt 2 * Geometric.pi) g : Float × Xorshift).1.isFinite =
      true := by
  obtain ⟨hfu, hbu⟩ := isFinite_unit (Xorshift.step g.state)
  have hspan : parts? (Scalar.ofInt 2 * Geometric.pi - 0 : Float) =
      some ⟨false, 7074237752028440, -50⟩ := by decide
  have hfs := isFinite_iff.mpr ⟨_, hspan⟩
  have hbs : |value (Scalar.ofInt 2 * Geometric.pi - 0 : Float)| ≤ 2 ^ (3 : ℤ) := by
    rw [value_of_parts hspan]
    norm_num [Parts.value, Parts.factor, Parts.magnitude, abs_le]
  have hprod : |value (Xorshift.unit (Xorshift.step g.state) : Float) *
      value (Scalar.ofInt 2 * Geometric.pi - 0 : Float)| ≤ 2 ^ (3 : ℤ) := by
    rw [abs_mul, ← one_mul ((2 : ℝ) ^ (3 : ℤ))]
    exact mul_le_mul (by simpa using hbu) hbs (abs_nonneg _) zero_le_one
  obtain ⟨hfp, -⟩ := (isRounding_mul hfu hfs).of_abs_le_two_zpow (by norm_num) (by norm_num) hprod
  exact (add_zero_of_isFinite hfp).1

theorem isFinite_radians {x : Float} (hx : x.isFinite = true) :
    (Turtle.radians x).isFinite = true := by
  have hunit : parts? (Geometric.pi / Scalar.ofInt 180 : Float) =
      some ⟨false, 5030569068109113, -58⟩ := by decide
  have hbound : |value (Geometric.pi / Scalar.ofInt 180 : Float)| ≤ 1 := by
    rw [value_of_parts hunit]
    norm_num [Parts.value, Parts.factor, Parts.magnitude, abs_le]
  refine (isRounding_mul hx (isFinite_iff.mpr ⟨_, hunit⟩)).isFinite _ (representable_value x).abs
    (abs_value_lt x) ?_
  rw [abs_mul]
  exact mul_le_of_le_one_right (abs_nonneg _) hbound

end Azimuth

namespace Turtle

/-! ## States in range -/

structure State.Measured (s : State Float) : Prop where
  position : s.position.isFinite = true
  length : s.length.isFinite = true
  angle : s.angle.isFinite = true

structure State.InRange (s : State Float) : Prop extends State.Measured s where
  direction : s.direction.isFinite = true

/-- A turtle in range whose place and angle are below the greatest power of two, and its length
below a given one. -/
structure State.Bounded (k : ℤ) (s : State Float) : Prop extends State.InRange s where
  place : s.position.Within (2 ^ (1023 : ℤ))
  length_le : |value s.length| ≤ 2 ^ k
  angle_le : |value s.angle| ≤ 2 ^ (1023 : ℤ)

theorem State.Bounded.mono {k l : ℤ} {s : State Float} (h : s.Bounded k) (hkl : k ≤ l) :
    s.Bounded l :=
  { h with length_le := h.length_le.trans (zpow_le_zpow_right₀ one_le_two hkl) }

/-- Parameters whose turns are absorbed by the greatest power of two, and whose factor on the
length is below a given power. -/
structure Params.Bounded (b : ℕ) (params : Params Float) : Prop where
  decay : params.lengthDecay.isFinite = true
  decay_le : |value params.lengthDecay| ≤ 2 ^ b
  offset : params.angleOffset.isFinite = true
  offset_le : |value params.angleOffset| ≤ 2 ^ (969 : ℤ)

/-- The greatest power of two absorbs what is small beside it. -/
theorem absorb {x y : Float} (hx : x.isFinite = true ∧ |value x| ≤ 2 ^ (1023 : ℤ))
    (hy : y.isFinite = true ∧ |value y| ≤ 2 ^ (969 : ℤ)) :
    (x + y).isFinite = true ∧ |value (x + y)| ≤ 2 ^ (1023 : ℤ) :=
  (isRounding_add hx.1 hy.1).of_abs_le_two_zpow_add (by norm_num) le_rfl
    ((abs_add_le _ _).trans (add_le_add hx.2 hy.2))

section Bounds

variable {k : ℤ} {b : ℕ} {s : State Float} {params : Params Float}

theorem State.Bounded.destination (hs : s.Bounded k) (hk : k ≤ 968) :
    s.destination.isFinite = true ∧ s.destination.Within (2 ^ (1023 : ℤ)) := by
  obtain ⟨hfd, hbd⟩ := Vec3.normalize_isFinite_within hs.direction
  obtain ⟨hdx, hdy, hdz⟩ := Vec3.isFinite_iff.mp hfd
  obtain ⟨hpx, hpy, hpz⟩ := Vec3.isFinite_iff.mp hs.position
  have hstep {d : Float} (hd : d.isFinite = true) (hle : |value d| ≤ 2) :
      (d * s.length).isFinite = true ∧ |value (d * s.length)| ≤ 2 ^ (969 : ℤ) := by
    refine (isRounding_mul hd hs.length).of_abs_le_two_zpow (by norm_num) (by norm_num) ?_
    rw [abs_mul]
    calc |value d| * |value s.length| ≤ 2 * 2 ^ (968 : ℤ) :=
          mul_le_mul hle (hs.length_le.trans (zpow_le_zpow_right₀ one_le_two hk)) (abs_nonneg _)
            zero_le_two
      _ = 2 ^ (969 : ℤ) := by rw [← zpow_one_add₀ two_ne_zero]; norm_num
  obtain ⟨hfx, hbx⟩ := absorb ⟨hpx, hs.place.1⟩ (hstep hdx hbd.1)
  obtain ⟨hfy, hby⟩ := absorb ⟨hpy, hs.place.2.1⟩ (hstep hdy hbd.2.1)
  obtain ⟨hfz, hbz⟩ := absorb ⟨hpz, hs.place.2.2⟩ (hstep hdz hbd.2.2)
  exact ⟨Vec3.isFinite_iff.mpr ⟨hfx, hfy, hfz⟩, hbx, hby, hbz⟩

theorem State.Bounded.advance (hs : s.Bounded k) (hp : params.Bounded b) (hk : -1074 ≤ k)
    (hkb : k + b ≤ 968) : (s.advance params).Bounded (k + b) := by
  obtain ⟨hfd, hbd⟩ := hs.destination (by omega)
  have hprod : |value s.length * value params.lengthDecay| ≤ 2 ^ (k + b) := by
    rw [abs_mul, zpow_add₀ two_ne_zero, zpow_natCast]
    exact mul_le_mul hs.length_le hp.decay_le (abs_nonneg _) (by positivity)
  obtain ⟨hfl, hbl⟩ :=
    (isRounding_mul hs.length hp.decay).of_abs_le_two_zpow (by omega) (by omega) hprod
  exact ⟨⟨⟨hfd, hfl, hs.angle⟩, hs.direction⟩, hbd, hbl, hs.angle_le⟩

theorem Params.Bounded.degrees (hp : params.Bounded b) {degrees : Float}
    (h : degrees = params.angleOffset ∨ degrees = -params.angleOffset) :
    degrees.isFinite = true ∧ |value degrees| ≤ 2 ^ (969 : ℤ) := by
  rcases h with rfl | rfl
  · exact ⟨hp.offset, hp.offset_le⟩
  · obtain ⟨hf, hv⟩ := neg_of_isFinite hp.offset
    rw [hv, abs_neg]
    exact ⟨hf, hp.offset_le⟩

end Bounds

def Drawable (e : Event Float) : Prop := ∀ x ∈ e.numbers, x.isFinite = true

theorem drawable_point {v : Vec3 Float} {c : Color} (h : v.isFinite = true) :
    Drawable (.point v c) := by
  obtain ⟨hx, hy, hz⟩ := Vec3.isFinite_iff.mp h
  simp [Drawable, Event.numbers, hx, hy, hz]

theorem drawable_marker {v : Vec3 Float} {c : Color} (h : v.isFinite = true) :
    Drawable (.marker v c) := drawable_point (c := c) h

theorem drawable_arrow {o d : Vec3 Float} {l : Float} {c : Color} (ho : o.isFinite = true)
    (hd : d.isFinite = true) (hl : l.isFinite = true) : Drawable (.arrow o d l c) := by
  obtain ⟨hox, hoy, hoz⟩ := Vec3.isFinite_iff.mp ho
  obtain ⟨hdx, hdy, hdz⟩ := Vec3.isFinite_iff.mp hd
  simp [Drawable, Event.numbers, hox, hoy, hoz, hdx, hdy, hdz, hl]

theorem drawable_segment {s : State Float} {palette : Palette} (hs : s.InRange)
    (hend : s.destination.isFinite = true) : ∀ e ∈ s.segment palette, Drawable e := by
  have hdirection := (Vec3.normalize_isFinite_within hs.direction).1
  intro e he
  rw [State.segment, List.mem_cons, List.mem_cons, List.mem_singleton] at he
  rcases he with rfl | rfl | rfl
  · exact drawable_point hs.position
  · exact drawable_point hend
  · exact drawable_arrow hs.position hdirection hs.length

/-! ## Steps with given functions -/

section Given

variable (sin cos : Float → Float) (params : Params Float) (w : Walker Float Xorshift)

def stepWith (c : Char) : List (Event Float) × Walker Float Xorshift :=
  @step Float Xorshift (geometry sin cos) inferInstance params w c

def Walker.afterWith (word : Word) : Walker Float Xorshift :=
  @Walker.after Float Xorshift (geometry sin cos) inferInstance params w word

def Walker.drawnWith (word : Word) : List (Event Float) :=
  @Walker.drawn Float Xorshift (geometry sin cos) inferInstance params w word

theorem Walker.afterWith_cons (c : Char) (word : Word) :
    w.afterWith sin cos params (c :: word) =
      (stepWith sin cos params w c).2.afterWith sin cos params word := rfl

theorem Walker.drawnWith_cons (c : Char) (word : Word) :
    w.drawnWith sin cos params (c :: word) = (stepWith sin cos params w c).1 ++
      (stepWith sin cos params w c).2.drawnWith sin cos params word := rfl

def heading (angle azimuth : Float) : Vec3 Float :=
  ⟨sin (radians angle) * cos azimuth, cos (radians angle), sin (radians angle) * sin azimuth⟩

def State.turnWith (s : State Float) (degrees azimuth : Float) : State Float :=
  { s with
    angle := s.angle + degrees
    direction := (heading sin cos (s.angle + degrees) azimuth).normalize }

theorem stepWith_pop :
    (∀ s ∈ (stepWith sin cos params w ']').2.stack.toList, s ∈ w.stack.toList) ∧
      ∀ e ∈ (stepWith sin cos params w ']').1, ∃ s ∈ w.stack.toList, ∃ color,
        e = .marker s.position color := by
  cases hs : w.stack.saved with
  | nil =>
    have hstep : stepWith sin cos params w ']' = _ :=
      @step_pop_of_saved_eq_nil Float Xorshift (geometry sin cos) inferInstance params w hs
    rw [hstep]
    exact ⟨fun _ => id, List.forall_mem_singleton.mpr ⟨_, List.mem_cons_self, _, rfl⟩⟩
  | cons top rest =>
    have htop : top ∈ w.stack.toList := by
      rw [Stack.toList, hs]
      exact List.mem_cons_of_mem _ List.mem_cons_self
    have hstep : stepWith sin cos params w ']' = _ :=
      @step_pop_of_saved_eq_cons Float Xorshift (geometry sin cos) inferInstance params w _ _ hs
    rw [hstep]
    refine ⟨fun s hmem => ?_, List.forall_mem_singleton.mpr ⟨top, htop, _, rfl⟩⟩
    rw [Stack.toList, hs]
    exact List.mem_cons_of_mem _ hmem

/-- A symbol draws a segment, turns the turtle at a finite azimuth, or at most marks the place of
a turtle that was there before. -/
theorem stepWith_cases (c : Char) :
    (c = 'F' ∧ stepWith sin cos params w c =
      (w.stack.current.segment params.palette,
        { w with stack := ⟨w.stack.current.advance params, w.stack.saved⟩ })) ∨
    (c ≠ 'F' ∧ ∃ degrees azimuth : Float,
      (degrees = params.angleOffset ∨ degrees = -params.angleOffset) ∧ azimuth.isFinite = true ∧
        (stepWith sin cos params w c).1 = [] ∧
        (stepWith sin cos params w c).2.stack =
          ⟨w.stack.current.turnWith sin cos degrees azimuth, w.stack.saved⟩) ∨
    (c ≠ 'F' ∧ (∀ s ∈ (stepWith sin cos params w c).2.stack.toList, s ∈ w.stack.toList) ∧
      ∀ e ∈ (stepWith sin cos params w c).1, ∃ s ∈ w.stack.toList, ∃ color,
        e = .marker s.position color) := by
  cases h : Command.ofSymbol? c with
  | none =>
    have hc : c ≠ 'F' := Command.ne_symbol_of_ofSymbol?_eq_none h .advance
    have hstep : stepWith sin cos params w c = ([], w) := by simp only [stepWith, step, h]
    rw [hstep]
    exact Or.inr (Or.inr ⟨hc, fun _ => id, List.forall_mem_nil _⟩)
  | some command =>
    obtain rfl := Command.ofSymbol?_eq_some_iff.mp h
    cases command with
    | advance => exact Or.inl ⟨rfl, rfl⟩
    | turnPositive =>
      exact Or.inr (Or.inl ⟨by decide, _, _, Or.inl rfl, isFinite_azimuth w.source, rfl, rfl⟩)
    | turnNegative =>
      exact Or.inr (Or.inl ⟨by decide, _, _, Or.inr rfl, isFinite_azimuth w.source, rfl, rfl⟩)
    | push =>
      exact Or.inr (Or.inr ⟨by decide, List.forall_mem_cons.mpr
        ⟨List.mem_cons_self, fun _ => id⟩, List.forall_mem_nil _⟩)
    | pop => exact Or.inr (Or.inr ⟨by decide, stepWith_pop sin cos params w⟩)

variable {sin cos} (hsin : Circular sin) (hcos : Circular cos)

include hsin hcos

theorem isFinite_heading {angle azimuth : Float} (hangle : angle.isFinite = true)
    (hazimuth : azimuth.isFinite = true) : (heading sin cos angle azimuth).isFinite = true := by
  obtain ⟨hfs, hbs⟩ := hsin _ (isFinite_radians hangle)
  have hprod {f : Float → Float} (hf : Circular f) :
      (sin (radians angle) * f azimuth).isFinite = true := by
    obtain ⟨hff, hbf⟩ := hf _ hazimuth
    refine ((isRounding_mul hfs hff).of_abs_le_two_zpow (k := 0) (by norm_num) (by norm_num) ?_).1
    rw [abs_mul, zpow_zero]
    exact mul_le_one₀ hbs (abs_nonneg _) hbf
  exact Vec3.isFinite_iff.mpr ⟨hprod hcos, (hcos _ (isFinite_radians hangle)).1, hprod hsin⟩

theorem isFinite_direction_turnWith (s : State Float) {degrees azimuth : Float}
    (hangle : (s.angle + degrees).isFinite = true) (hazimuth : azimuth.isFinite = true) :
    (s.turnWith sin cos degrees azimuth).direction.isFinite = true :=
  (Vec3.normalize_isFinite_within (isFinite_heading hsin hcos hangle hazimuth)).1

variable {w}

/-- A symbol draws finite numbers from a stack in range and keeps the stack in range, if it
leaves the turtle with a finite place, length and angle. -/
theorem inRange_stepWith (hw : ∀ s ∈ w.stack.toList, s.InRange) (c : Char)
    (hm : (stepWith sin cos params w c).2.stack.current.Measured) :
    (∀ s ∈ (stepWith sin cos params w c).2.stack.toList, s.InRange) ∧
      ∀ e ∈ (stepWith sin cos params w c).1, Drawable e := by
  obtain ⟨hcurrent, hsaved⟩ := List.forall_mem_cons.mp hw
  rcases stepWith_cases sin cos params w c with
    ⟨-, hstep⟩ | ⟨-, degrees, azimuth, -, hazimuth, hdrawn, hstack⟩ | ⟨-, hstack, hdrawn⟩
  · rw [hstep] at hm ⊢
    exact ⟨List.forall_mem_cons.mpr ⟨⟨hm, hcurrent.direction⟩, hsaved⟩,
      drawable_segment hcurrent hm.position⟩
  · rw [hstack] at hm ⊢
    rw [hdrawn]
    have hdirection := isFinite_direction_turnWith hsin hcos w.stack.current hm.angle hazimuth
    exact ⟨List.forall_mem_cons.mpr ⟨⟨hm, hdirection⟩, hsaved⟩, nofun⟩
  · refine ⟨fun s hs => hw s (hstack s hs), fun e he => ?_⟩
    obtain ⟨s, hs, color, rfl⟩ := hdrawn e he
    exact drawable_marker (hw s hs).position

theorem drawable_drawnWith (hw : ∀ s ∈ w.stack.toList, s.InRange) (word : Word)
    (hm : ∀ i ≤ word.length, (w.afterWith sin cos params (word.take i)).stack.current.Measured) :
    ∀ e ∈ w.drawnWith sin cos params word, Drawable e := by
  induction word generalizing w with
  | nil => exact nofun
  | cons c rest ih =>
    obtain ⟨hrange, hdrawn⟩ := inRange_stepWith params hsin hcos hw c
      (hm 1 (Nat.succ_le_succ (Nat.zero_le _)))
    have hrest := ih hrange fun i hi => hm (i + 1) (Nat.succ_le_succ hi)
    rw [Walker.drawnWith_cons]
    exact List.forall_mem_append.mpr ⟨hdrawn, hrest⟩

variable {params} {k : ℤ} {b : ℕ} (hp : params.Bounded b)

include hp

theorem bounded_stepWith (hw : ∀ s ∈ w.stack.toList, s.Bounded k) (hk : -1074 ≤ k) (c : Char)
    (hkb : k + b * [c].count 'F' ≤ 968) :
    ∀ s ∈ (stepWith sin cos params w c).2.stack.toList, s.Bounded (k + b * [c].count 'F') := by
  obtain ⟨hcurrent, hsaved⟩ := List.forall_mem_cons.mp hw
  have hmono : ∀ s : State Float, s.Bounded k → s.Bounded (k + b * [c].count 'F') :=
    fun s h => h.mono (le_add_of_nonneg_right (by positivity))
  rcases stepWith_cases sin cos params w c with
    ⟨rfl, hstep⟩ | ⟨-, degrees, azimuth, hdegrees, hazimuth, -, hstack⟩ | ⟨-, hstack, -⟩
  · rw [hstep]
    refine List.forall_mem_cons.mpr ⟨?_, fun s hs => hmono s (hsaved s hs)⟩
    rw [List.count_singleton_self, Nat.cast_one, mul_one] at hkb ⊢
    exact hcurrent.advance hp hk hkb
  · rw [hstack]
    obtain ⟨hfa, hba⟩ := absorb ⟨hcurrent.angle, hcurrent.angle_le⟩ (hp.degrees hdegrees)
    have hdirection := isFinite_direction_turnWith hsin hcos w.stack.current hfa hazimuth
    refine List.forall_mem_cons.mpr ⟨hmono _ ?_, fun s hs => hmono s (hsaved s hs)⟩
    exact ⟨⟨⟨hcurrent.position, hcurrent.length, hfa⟩, hdirection⟩, hcurrent.place,
      hcurrent.length_le, hba⟩
  · exact fun s hs => hmono s (hw s (hstack s hs))

/-- Lengths grow with the segments of a walk, but nothing else does. -/
theorem bounded_afterWith (hw : ∀ s ∈ w.stack.toList, s.Bounded k) (hk : -1074 ≤ k) (word : Word)
    (hkb : k + b * word.count 'F' ≤ 968) :
    ∀ s ∈ (w.afterWith sin cos params word).stack.toList, s.Bounded (k + b * word.count 'F') := by
  induction word generalizing w k with
  | nil =>
    intro s hs
    exact (hw s hs).mono (by simp)
  | cons c rest ih =>
    have hcount : (c :: rest).count 'F' = [c].count 'F' + rest.count 'F' := by
      rw [← List.count_append, List.singleton_append]
    have hsplit : k + b * (c :: rest).count 'F' =
        k + b * [c].count 'F' + b * rest.count 'F' := by
      rw [hcount]
      push_cast
      ring
    have hnonneg : (0 : ℤ) ≤ b * rest.count 'F' := by positivity
    have hnonneg' : (0 : ℤ) ≤ b * [c].count 'F' := by positivity
    rw [hsplit] at hkb ⊢
    rw [Walker.afterWith_cons]
    exact ih (bounded_stepWith hsin hcos hp hw hk c (by omega)) (by omega) hkb

end Given

end Turtle

end Arbor
