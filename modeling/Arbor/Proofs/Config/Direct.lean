import Arbor.Proofs.Generation.Departure
import Arbor.Proofs.Turtle.Checked

/-! # Settings and parameters that are given directly

The settings of a configuration and parameters with the same fields are refused together. Settings
scale the heading before the run scales it again, which need not give the same numbers.
-/

namespace Arbor

namespace Settings

/-- The parameters that carry the settings as they are. -/
def direct (s : Settings) (limits : Limits) : Generation.Params :=
  ⟨s.iterations.toNat, s.seed, s.initial, s.turtle, limits⟩

variable {s : Settings} {limits : Limits}

theorem iterationsOf_eq_ok (h0 : 0 ≤ s.iterations) (h : s.iterations < 2 ^ 32) :
    Generation.Params.iterationsOf s.iterations = .ok s.iterations.toNat := by
  have hpow : ((twoPow 32 : ℕ) : ℤ) = 2 ^ 32 := rfl
  rw [Generation.Params.iterationsOf, if_neg (not_lt.mpr h0), hpow, if_neg (not_le.mpr h)]

/-- Whatever the settings lead to, the run starts with the state of the parameters that carry
them as they are, its heading scaled once more. -/
theorem validate_direct_of_toParams (h0 : 0 ≤ s.iterations) (hn : s.iterations < 2 ^ 32)
    {params : Generation.Params} (h : s.toParams limits = .ok params) :
    ∃ generator initial, (s.direct limits).validate = .ok (generator, initial) ∧
      params = { s.direct limits with initial } ∧
      params.validate =
        .ok (generator, { initial with direction := initial.direction.normalize }) := by
  obtain ⟨n, initial, hi, hs, rfl, ⟨generator, started⟩, hv⟩ := toParams_eq_ok_iff.mp h
  rw [iterationsOf_eq_ok h0 hn] at hi
  cases hi
  obtain ⟨hc, ht, hi, hg⟩ := Generation.Params.validate_eq_ok_iff.mp hv
  obtain ⟨-, -, rfl⟩ := Turtle.validated_eq_ok_iff.mp hi
  exact ⟨generator, initial, Generation.Params.validate_eq_ok_iff.mpr ⟨hc, ht, hs, hg⟩, rfl, hv⟩

theorem toParams_of_validate_direct (h0 : 0 ≤ s.iterations) (hn : s.iterations < 2 ^ 32)
    {generator : Xorshift} {initial : Turtle.State Float}
    (h : (s.direct limits).validate = .ok (generator, initial))
    (hl : s.initial.direction.length.isFinite = true) :
    s.toParams limits = .ok { s.direct limits with initial } := by
  obtain ⟨hc, ht, hs, hg⟩ := Generation.Params.validate_eq_ok_iff.mp h
  exact toParams_eq_ok_iff.mpr ⟨_, initial, iterationsOf_eq_ok h0 hn, hs, rfl, _,
    Generation.Params.validate_eq_ok_iff.mpr ⟨hc, ht, Turtle.validated_validated hs hl, hg⟩⟩

end Settings

namespace Generation

theorem stream_congr {g : Grammar} {p q : Params} (hv : p.validate = q.validate)
    (hl : p.limits = q.limits) (hn : p.iterations = q.iterations) (ht : p.turtle = q.turtle)
    {σ : Type} (emit : σ → Event Float → σ) (sink : σ) :
    stream g p emit sink = stream g q emit sink := by
  simp only [stream, grow, hv, hl, hn, ht]

end Generation

namespace Settings

/-- Settings are accepted with the parameters that carry them as they are, unless the length of
the heading overflows. The run of the settings then starts with the state of the other run, its
heading scaled once more; if that changes nothing, the runs are the same. -/
theorem toParams_direct (s : Settings) (limits : Limits) (h0 : 0 ≤ s.iterations)
    (hn : s.iterations < 2 ^ 32) :
    ((s.initial.direction.isFinite = true → s.initial.direction.length.isFinite = true) →
      ((∃ params, s.toParams limits = .ok params) ↔
        ∃ started, (s.direct limits).validate = .ok started)) ∧
    ∀ params, s.toParams limits = .ok params → ∃ generator initial,
      (s.direct limits).validate = .ok (generator, initial) ∧
      params = { s.direct limits with initial } ∧
      params.validate =
        .ok (generator, { initial with direction := initial.direction.normalize }) ∧
      (initial.direction.normalize = initial.direction →
        ∀ (g : Grammar) (σ : Type) (emit : σ → Event Float → σ) (sink : σ),
          Generation.stream g params emit sink =
            Generation.stream g (s.direct limits) emit sink) := by
  constructor
  · intro hl
    constructor
    · rintro ⟨params, h⟩
      obtain ⟨generator, initial, hv, -⟩ := validate_direct_of_toParams h0 hn h
      exact ⟨_, hv⟩
    · rintro ⟨⟨generator, initial⟩, hv⟩
      obtain ⟨-, -, hs, -⟩ := Generation.Params.validate_eq_ok_iff.mp hv
      have hdirection := (Turtle.validated_eq_ok_iff.mp hs).1.direction
      exact ⟨_, toParams_of_validate_direct h0 hn hv (hl hdirection)⟩
  · intro params h
    obtain ⟨generator, initial, hv, hp, hagain⟩ := validate_direct_of_toParams h0 hn h
    refine ⟨generator, initial, hv, hp, hagain, fun hsame g σ emit sink => ?_⟩
    have hchecks : params.validate = (s.direct limits).validate := by rw [hagain, hv, hsame]
    subst hp
    exact Generation.stream_congr hchecks rfl rfl rfl emit sink

def slanted : Settings :=
  { standard with initial := { standard.initial with direction := ⟨1, 2, 0⟩ } }

theorem exists_validate_slanted : ∃ generator initial,
    (slanted.direct .standard).validate = .ok (generator, initial) := by
  have hv : (slanted.direct .standard).validate.isOk = true := by decide +kernel
  obtain ⟨⟨generator, initial⟩, h⟩ := exists_eq_ok_of_isOk hv
  exact ⟨generator, initial, h⟩

theorem isFinite_length_slanted : slanted.initial.direction.length.isFinite = true := by
  decide +kernel

theorem toParams_direct_slanted :
    0 ≤ slanted.iterations ∧ slanted.iterations < 2 ^ 32 ∧
      slanted.initial.direction.length.isFinite = true ∧
      ∃ params, slanted.toParams .standard = .ok params ∧ ∃ generator initial,
        (slanted.direct .standard).validate = .ok (generator, initial) ∧
        params.validate =
          .ok (generator, { initial with direction := initial.direction.normalize }) := by
  have h0 : 0 ≤ slanted.iterations := by decide
  have hn : slanted.iterations < 2 ^ 32 := by decide
  refine ⟨h0, hn, isFinite_length_slanted, ?_⟩
  obtain ⟨haccept, hstate⟩ := toParams_direct slanted .standard h0 hn
  obtain ⟨generator, initial, hv⟩ := exists_validate_slanted
  obtain ⟨params, hp⟩ := (haccept fun _ => isFinite_length_slanted).mpr ⟨_, hv⟩
  obtain ⟨generator, initial, hv, -, hagain, -⟩ := hstate params hp
  exact ⟨params, hp, generator, initial, hv, hagain⟩

/-- Settings and the parameters that carry them as they are need not start with the same state. -/
theorem settings_start_elsewhere :
    ¬∀ (s : Settings) (limits : Limits), 0 ≤ s.iterations → s.iterations < 2 ^ 32 →
      ((∃ params, s.toParams limits = .ok params) ↔
        ∃ started, (s.direct limits).validate = .ok started) ∧
      ∀ params started, s.toParams limits = .ok params →
        (s.direct limits).validate = .ok started → params.validate = .ok started := by
  intro h
  have h0 : 0 ≤ slanted.iterations := by decide
  have hn : slanted.iterations < 2 ^ 32 := by decide
  obtain ⟨generator, initial, hv⟩ := exists_validate_slanted
  have hp := toParams_of_validate_direct h0 hn hv isFinite_length_slanted
  have hsame := (h slanted .standard h0 hn).2 _ _ hp hv
  have hagain := Turtle.direction_of_validated
    (Generation.Params.validate_eq_ok_iff.mp hsame).2.2.1
  have hscaled := Turtle.direction_of_validated
    (Generation.Params.validate_eq_ok_iff.mp hv).2.2.1
  change initial.direction = initial.direction.normalize at hagain
  change initial.direction = slanted.initial.direction.normalize at hscaled
  rw [hscaled] at hagain
  have hne : slanted.initial.direction.normalize ≠
      slanted.initial.direction.normalize.normalize := by decide +kernel
  exact hne hagain

end Settings

end Arbor
