import Arbor.Proofs.Viewer.Agreement
import Arbor.Viewer.Gesture

/-! # What a viewer shows

A frame is a sequence of steps, of which at most one runs a grammar. At every moment
between two steps a viewer shows the last run that succeeded, all of it and nothing else,
and reports a fault exactly if the last run failed.
-/

namespace Arbor.Viewer

inductive Step where
  | rotate
  | setControls (input : Input)
  | regenerate
  | adjust (input : Input)
  | center
  | steer (input : Input)

def Step.isRun : Step → Bool
  | regenerate => true
  | _ => false

def after (v : Viewer) : Step → Viewer
  | .rotate => v.rotate
  | .setControls input => (v.setControls input).1
  | .regenerate => v.regenerate
  | .adjust input => v.adjust input
  | .center => v.center
  | .steer input => v.steer input

def frameSteps (v : Viewer) (input : Input) : List Step :=
  [.rotate, .setControls input] ++
    (if (v.rotate.setControls input).2 then [.regenerate] else []) ++ [.adjust input] ++
    (if input.center then [.center] else []) ++ [.steer input]

def steps (v : Viewer) : List Input → List Step
  | [] => []
  | input :: rest => v.frameSteps input ++ steps (v.frame input).1 rest

/-- A viewer and the controls of all runs that it has made, the last run first. -/
structure History where
  viewer : Viewer
  asked : List Overrides

namespace History

/-- Takes a step, and notes the controls if it is a run. -/
def step (h : History) (s : Step) : History :=
  ⟨h.viewer.after s, if s.isRun then h.viewer.overrides :: h.asked else h.asked⟩

/-- Events are those of the last run that succeeded, or none without such a run. -/
def OfLast (c : Config) (asked : List Overrides) (events : List (Event Float)) : Prop :=
  (events = [] ∧ ∀ o ∈ asked, ∃ e, c.events o none = .error e) ∨
    ∃ later o earlier, asked = later ++ o :: earlier ∧ c.events o none = .ok events ∧
      ∀ o' ∈ later, ∃ e, c.events o' none = .error e

/-- What holds between any two steps of a viewer of a configuration. -/
structure Sound (c : Config) (h : History) : Prop where
  config : h.viewer.config = c
  summary : h.viewer.summary = .ofEvents h.viewer.events
  events : OfLast c h.asked h.viewer.events
  lastError : ∀ o earlier, h.asked = o :: earlier →
    (h.viewer.lastError = none ↔ ∃ events, c.events o none = .ok events)

end History

/-! ## Frames as steps -/

theorem foldl_frameSteps (v : Viewer) (input : Input) :
    (v.frameSteps input).foldl after v = (v.frame input).1 := by
  simp only [frameSteps, frame, control, List.foldl_append, List.foldl_cons, List.foldl_nil, after]
  cases (v.rotate.setControls input).2 <;> cases input.center <;> rfl

theorem foldl_steps (v : Viewer) (inputs : List Input) :
    (v.steps inputs).foldl after v = inputs.foldl (fun v input => (v.frame input).1) v := by
  induction inputs generalizing v with
  | nil => rfl
  | cons input rest ih => rw [steps, List.foldl_append, foldl_frameSteps, ih, List.foldl_cons]

theorem Session.viewer_run (s : Session) (inputs : List Input) :
    (s.run inputs).viewer = (s.viewer.steps inputs).foldl after s.viewer := by
  rw [foldl_steps, Session.run]
  induction inputs generalizing s with
  | nil => rfl
  | cons input rest ih => exact ih _

theorem History.viewer_foldl (h : History) (steps : List Step) :
    (steps.foldl step h).viewer = steps.foldl after h.viewer := by
  induction steps generalizing h with
  | nil => rfl
  | cons s rest ih => exact ih _

/-! ## What a step does to what is shown -/

theorem foldl_toggle (v : Viewer) (checks : List Check) :
    ∃ off, checks.foldl toggle v = { v with off } := by
  induction checks generalizing v with
  | nil => exact ⟨v.off, rfl⟩
  | cons check rest ih => exact ih (v.toggle check)

theorem after_of_not_isRun (v : Viewer) {s : Step} (hs : s.isRun = false) :
    (v.after s).config = v.config ∧ (v.after s).events = v.events ∧
      (v.after s).summary = v.summary ∧ (v.after s).lastError = v.lastError := by
  cases s with
  | regenerate => cases hs
  | rotate =>
    simp only [after, rotate]
    split <;> exact ⟨rfl, rfl, rfl, rfl⟩
  | adjust input =>
    obtain ⟨off, ho⟩ := foldl_toggle v input.toggled
    simp only [after, adjust, ho, and_self]
  | setControls _ | center | steer _ => exact ⟨rfl, rfl, rfl, rfl⟩

theorem overrides_regenerate (v : Viewer) : v.regenerate.overrides = v.overrides := by
  unfold regenerate
  cases v.runEvents <;> rfl

/-- Only the controls of a run decide what a frame asks for. -/
theorem overrides_frame (v : Viewer) (input : Input) :
    (v.frame input).1.overrides = (v.rotate.setControls input).1.overrides := by
  have hrun : (v.rotate.control input).overrides = (v.rotate.setControls input).1.overrides := by
    simp only [control]
    split
    · exact overrides_regenerate _
    · rfl
  obtain ⟨off, ho⟩ := foldl_toggle (v.rotate.control input) input.toggled
  rw [← hrun]
  simp only [frame, adjust, ho, steer]
  cases input.center <;> rfl

/-- A frame asks for at most one run, with the controls that it leaves. -/
theorem History.asked_frameSteps (h : History) (input : Input) :
    ((h.viewer.frameSteps input).foldl step h).asked =
      if (h.viewer.rotate.setControls input).2 then (h.viewer.frame input).1.overrides :: h.asked
      else h.asked := by
  rw [overrides_frame]
  simp only [frameSteps, List.foldl_append, List.foldl_cons, List.foldl_nil]
  cases (h.viewer.rotate.setControls input).2 <;> cases input.center <;> rfl

theorem regenerate_of_ok {c : Config} {v : Viewer} {events : List (Event Float)}
    (hc : v.config = c) (h : c.events v.overrides none = .ok events) :
    v.regenerate = { v with events, summary := .ofEvents events, lastError := none } := by
  rw [← hc, ← runEvents_eq] at h
  rw [regenerate, h]

theorem regenerate_of_error {c : Config} {v : Viewer} {e : GenerationError}
    (hc : v.config = c) (h : c.events v.overrides none = .error e) :
    v.regenerate = { v with lastError := some e } := by
  rw [← hc, ← runEvents_eq] at h
  rw [regenerate, h]

/-! ## Every moment -/

namespace History

variable {c : Config} {h : History} {asked : List Overrides} {o : Overrides}
  {events drawn : List (Event Float)}

theorem ofLast_cons_of_ok (ho : c.events o none = .ok drawn) :
    OfLast c (o :: asked) events ↔ events = drawn := by
  constructor
  · rintro (⟨-, hf⟩ | ⟨later, o', earlier, ha, ho', hf⟩)
    · obtain ⟨e, he⟩ := hf o List.mem_cons_self
      cases ho.symm.trans he
    · cases later with
      | nil =>
        obtain ⟨rfl, -⟩ := List.cons.inj ha
        exact Except.ok.inj (ho'.symm.trans ho)
      | cons last later =>
        obtain ⟨rfl, -⟩ := List.cons.inj ha
        obtain ⟨e, he⟩ := hf o List.mem_cons_self
        cases ho.symm.trans he
  · rintro rfl
    exact Or.inr ⟨[], o, asked, rfl, ho, fun _ hn => absurd hn List.not_mem_nil⟩

theorem ofLast_cons_of_error {e : GenerationError} (ho : c.events o none = .error e) :
    OfLast c (o :: asked) events ↔ OfLast c asked events := by
  constructor
  · rintro (⟨hn, hf⟩ | ⟨later, o', earlier, ha, ho', hf⟩)
    · exact Or.inl ⟨hn, (List.forall_mem_cons.mp hf).2⟩
    · cases later with
      | nil =>
        obtain ⟨rfl, -⟩ := List.cons.inj ha
        cases ho.symm.trans ho'
      | cons last later =>
        obtain ⟨-, rfl⟩ := List.cons.inj ha
        exact Or.inr ⟨later, o', earlier, rfl, ho', (List.forall_mem_cons.mp hf).2⟩
  -- A run that fails joins those that failed since the last success.
  · rintro (⟨hn, hf⟩ | ⟨later, o', earlier, rfl, ho', hf⟩)
    · exact Or.inl ⟨hn, List.forall_mem_cons.mpr ⟨⟨e, ho⟩, hf⟩⟩
    · exact Or.inr ⟨o :: later, o', earlier, rfl, ho', List.forall_mem_cons.mpr ⟨⟨e, ho⟩, hf⟩⟩

theorem Sound.regenerate (hs : Sound c h) : Sound c (h.step .regenerate) := by
  cases hr : c.events h.viewer.overrides none with
  | ok events =>
    have hv : (h.step .regenerate).viewer =
        { h.viewer with events, summary := .ofEvents events, lastError := none } :=
      regenerate_of_ok hs.config hr
    refine ⟨?_, ?_, ?_, ?_⟩
    · rw [hv]
      exact hs.config
    · rw [hv]
    · rw [hv]
      exact (ofLast_cons_of_ok hr).mpr rfl
    · rintro o earlier ⟨⟩
      rw [hv]
      exact iff_of_true rfl ⟨events, hr⟩
  | error e =>
    have hv : (h.step .regenerate).viewer = { h.viewer with lastError := some e } :=
      regenerate_of_error hs.config hr
    refine ⟨?_, ?_, ?_, ?_⟩
    · rw [hv]
      exact hs.config
    · rw [hv]
      exact hs.summary
    · rw [hv]
      exact (ofLast_cons_of_error hr).mpr hs.events
    · rintro o earlier ⟨⟩
      rw [hv]
      refine iff_of_false (by simp) ?_
      rintro ⟨events, ho⟩
      rw [hr] at ho
      cases ho

theorem Sound.still (hs : Sound c h) {s : Step} (hr : s.isRun = false) : Sound c (h.step s) := by
  obtain ⟨hc, he, hm, hl⟩ := after_of_not_isRun h.viewer hr
  have ha : (h.step s).asked = h.asked := by simp only [step, hr, Bool.false_eq_true, if_false]
  refine ⟨hc.trans hs.config, ?_, ?_, ?_⟩
  · exact (hm.trans hs.summary).trans (congrArg Summary.ofEvents he.symm)
  · rw [ha, show (h.step s).viewer.events = h.viewer.events from he]
    exact hs.events
  · rw [ha, show (h.step s).viewer.lastError = h.viewer.lastError from hl]
    exact hs.lastError

theorem Sound.step (hs : Sound c h) (s : Step) : Sound c (h.step s) := by
  cases hr : s.isRun with
  | false => exact hs.still hr
  | true =>
    cases s with
    | regenerate => exact hs.regenerate
    | _ => cases hr

theorem Sound.foldl (hs : Sound c h) (steps : List Step) :
    Sound c (steps.foldl History.step h) := by
  induction steps generalizing h with
  | nil => exact hs
  | cons s rest ih => exact ih (hs.step s)

theorem sound_blank (selected seed : String) (iterations : Int) :
    Sound c ⟨blank c selected seed iterations, []⟩ :=
  ⟨rfl, rfl, Or.inl ⟨rfl, by simp⟩, by rintro o earlier ⟨⟩⟩

theorem asked_foldl_ne_nil (ha : h.asked ≠ []) (steps : List Step) :
    (steps.foldl History.step h).asked ≠ [] := by
  induction steps generalizing h with
  | nil => exact ha
  | cons s rest ih =>
    refine ih ?_
    simp only [History.step]
    split
    · exact List.cons_ne_nil _ _
    · exact ha

end History

/-- A viewer that is opened runs a grammar and then takes the steps of its frames. At every
moment since, it shows the complete events of the last run that succeeded, or none if
there was no such run, with their summary, and no fault exactly if the last run succeeded.
A run that fails changes nothing but the fault, and a step that is no run changes neither
the events nor the summary nor the fault. -/
theorem shows_last_finished_run (c : Config) (seed : Option String) (inputs : List Input) :
    let opened := blank c ((c.grammars.head?.map Entry.id).getD "")
      (seed.getD c.settings.seed) c.settings.iterations
    let steps := Step.regenerate :: (launch c seed).steps inputs
    let moment (k : Nat) : History := (steps.take (k + 1)).foldl History.step ⟨opened, []⟩
    (moment 0).viewer = launch c seed ∧
    (moment steps.length).viewer = ((Session.start c seed).run inputs).viewer ∧
    ∀ k,
      let v := (moment k).viewer
      v.summary = .ofEvents v.events ∧
      ((v.events = [] ∧ ∀ o ∈ (moment k).asked, ∃ e, c.events o none = .error e) ∨
        ∃ later o earlier, (moment k).asked = later ++ o :: earlier ∧
          c.events o none = .ok v.events ∧ ∀ o' ∈ later, ∃ e, c.events o' none = .error e) ∧
      (∃ o earlier, (moment k).asked = o :: earlier ∧
        (v.lastError = none ↔ ∃ events, c.events o none = .ok events)) ∧
      (∀ e, c.events v.overrides none = .error e →
        v.regenerate = { v with lastError := some e }) ∧
      ∀ s : Step, s.isRun = false →
        (v.after s).events = v.events ∧ (v.after s).summary = v.summary ∧
          (v.after s).lastError = v.lastError := by
  intro opened steps moment
  refine ⟨rfl, ?_, fun k => ?_⟩
  · simp only [moment]
    rw [List.take_of_length_le (Nat.le_succ _), History.viewer_foldl, Session.viewer_run]
    rfl
  · have hs : History.Sound c (moment k) := (History.sound_blank _ _ _).foldl _
    have ha : (moment k).asked ≠ [] :=
      History.asked_foldl_ne_nil (h := History.step ⟨opened, []⟩ .regenerate)
        (List.cons_ne_nil _ _) _
    obtain ⟨o, earlier, ho⟩ := List.exists_cons_of_ne_nil ha
    exact ⟨hs.summary, hs.events, ⟨o, earlier, ho, hs.lastError o earlier ho⟩,
      fun e he => regenerate_of_error hs.config he, fun s hr => (after_of_not_isRun _ hr).2⟩

/-- A viewer that is opened with one pass and is then asked for two, which are too many. -/
theorem shows_last_finished_run_narrow :
    let c := narrow 1
    let v := ((Session.start c none).run [{ iterations := some 2 }]).viewer
    c.events ⟨some "bush", some 1, some "default"⟩ none = .ok v.events ∧ v.events.length = 12 ∧
      v.summary = .ofEvents v.events ∧ v.lastError ≠ none ∧
      ∃ e, c.events v.overrides none = .error e ∧ v.regenerate = { v with lastError := some e } ∧
        Step.center.isRun = false ∧ (v.after .center).events = v.events := by
  intro c v
  let input : Input := { iterations := some 2 }
  let opened := blank c ((c.grammars.head?.map Entry.id).getD "") c.settings.seed
    c.settings.iterations
  obtain ⟨⟨events, hdraws, hsize⟩, e, hfails⟩ := events_narrow
  change c.events opened.overrides none = .ok events at hdraws
  have hlaunch := regenerate_of_ok (v := opened) rfl hdraws
  have hchanged : ((launch c none).rotate.setControls input).2 = true := by
    change (opened.regenerate.rotate.setControls input).2 = true
    rw [hlaunch]
    rfl
  have hasks : v.overrides = ⟨some "bush", some 2, some "default"⟩ := by
    change (opened.regenerate.frame input).1.overrides = _
    rw [overrides_frame, hlaunch]
    rfl
  change c.events opened.overrides none = .ok v.events ∧ _
  replace hfails : c.events v.overrides none = .error e := hasks ▸ hfails
  -- with the configuration in sight, its runs would be unfolded
  clear_value c
  obtain ⟨-, hlast, hall⟩ := shows_last_finished_run c none [input]
  obtain ⟨steps, hsteps⟩ : ∃ steps, steps = Step.regenerate :: (launch c none).steps [input] :=
    ⟨_, rfl⟩
  obtain ⟨m, hm⟩ : ∃ m, m = steps.foldl History.step ⟨opened, []⟩ := ⟨_, rfl⟩
  have hasked : m.asked = [v.overrides, opened.overrides] := by
    have h := History.asked_frameSteps ⟨launch c none, [opened.overrides]⟩ input
    rw [if_pos hchanged] at h
    rw [hm, hsteps, Viewer.steps, Viewer.steps, List.append_nil]
    exact h
  have h := hall steps.length
  simp only [← hsteps, List.take_of_length_le (Nat.le_succ _), Option.getD_none, opened,
    ← hm] at h hlast
  change m.viewer = v at hlast
  clear_value v
  subst v
  obtain ⟨hsummary, hshown, ⟨o, earlier, ho, hfault⟩, hagain, hstill⟩ := h
  obtain ⟨rfl, -⟩ := List.cons.inj (hasked.symm.trans ho)
  have hevents : m.viewer.events = events := by
    have hl : History.OfLast c m.asked m.viewer.events := hshown
    rwa [hasked, History.ofLast_cons_of_error hfails, History.ofLast_cons_of_ok hdraws] at hl
  refine ⟨?_, ?_, hsummary, ?_, e, hfails, hagain e hfails, rfl, (hstill .center rfl).1⟩
  · rw [hevents]
    exact hdraws
  · rw [hevents]
    exact hsize
  · rw [Ne, hfault]
    rintro ⟨_, hd⟩
    cases hfails.symm.trans hd

end Arbor.Viewer
