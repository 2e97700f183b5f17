import Arbor.Proofs.Config.Checks
import Arbor.Proofs.Vec3.Normalize

/-! # Checked turtles

A turtle passes its check iff all its parts are finite and its heading has a length. The heading
is scaled, and a scaled heading passes again, unless its length overflowed before.
-/

namespace Arbor.Turtle

open Binary64

variable {p : Parameter} {x : Float}

theorem requireFinite_eq_ok_iff : requireFinite p x = .ok () ↔ x.isFinite = true := by
  unfold requireFinite
  split
  · next h => exact iff_of_true rfl h
  · next h => exact iff_of_false (fun h' => nomatch h') h

theorem requireFiniteVector_eq_ok_iff {v : Vec3 Float} :
    requireFiniteVector p v = .ok () ↔ v.isFinite = true := by
  unfold requireFiniteVector
  split
  · next h => exact iff_of_true rfl h
  · next h => exact iff_of_false (fun h' => nomatch h') h

structure State.Finite (s : State Float) : Prop where
  position : s.position.isFinite = true
  direction : s.direction.isFinite = true
  length : s.length.isFinite = true
  radius : s.radius.isFinite = true
  angle : s.angle.isFinite = true

theorem validated_eq_ok_iff {s t : State Float} : s.validated = .ok t ↔
    s.Finite ∧ ¬(s.direction.length == 0) = true ∧
      t = { s with direction := s.direction.normalize } := by
  simp only [State.validated, bind_eq_ok_iff]
  constructor
  · rintro ⟨_, hp, _, hd, h⟩
    split at h
    · cases h
    · next h0 =>
      simp only [bind_eq_ok_iff] at h
      obtain ⟨_, hl, _, hr, _, ha, h⟩ := h
      cases h
      exact ⟨⟨requireFiniteVector_eq_ok_iff.mp hp, requireFiniteVector_eq_ok_iff.mp hd,
        requireFinite_eq_ok_iff.mp hl, requireFinite_eq_ok_iff.mp hr,
        requireFinite_eq_ok_iff.mp ha⟩, h0, rfl⟩
  · rintro ⟨⟨hp, hd, hl, hr, ha⟩, h0, rfl⟩
    refine ⟨(), requireFiniteVector_eq_ok_iff.mpr hp, (), requireFiniteVector_eq_ok_iff.mpr hd, ?_⟩
    rw [if_neg h0]
    simp only [bind_eq_ok_iff]
    exact ⟨(), requireFinite_eq_ok_iff.mpr hl, (), requireFinite_eq_ok_iff.mpr hr, (),
      requireFinite_eq_ok_iff.mpr ha, rfl⟩

theorem direction_of_validated {s t : State Float} (h : s.validated = .ok t) :
    t.direction = s.direction.normalize := by
  obtain ⟨-, -, rfl⟩ := validated_eq_ok_iff.mp h
  rfl

theorem validated_validated {s t : State Float} (h : s.validated = .ok t)
    (hl : s.direction.length.isFinite = true) :
    t.validated = .ok { t with direction := t.direction.normalize } := by
  obtain ⟨hs, h0, rfl⟩ := validated_eq_ok_iff.mp h
  rw [beq_zero_iff_of_isFinite hl] at h0
  obtain ⟨hln, hne⟩ := Vec3.length_normalize hs.direction hl h0
  refine validated_eq_ok_iff.mpr ⟨⟨hs.position, ?_, hs.length, hs.radius, hs.angle⟩, ?_, rfl⟩
  · exact (Vec3.normalize_isFinite_within hs.direction).1
  · rwa [beq_zero_iff_of_isFinite hln]

theorem Params.isFinite_of_requirePositive (h : Params.requirePositive p x = .ok ()) :
    x.isFinite = true := by
  unfold requirePositive at h
  split at h
  · cases h
  · next hx =>
    by_contra hfin
    exact hx (by simp [hfin])

theorem Params.isFinite_of_validate {params : Params Float} (h : params.validate = .ok ()) :
    params.lengthDecay.isFinite = true ∧ params.angleOffset.isFinite = true := by
  simp only [validate, bind_eq_ok_iff] at h
  obtain ⟨_, hl, _, -, ho⟩ := h
  exact ⟨isFinite_of_requirePositive hl, requireFinite_eq_ok_iff.mp ho⟩

end Arbor.Turtle
