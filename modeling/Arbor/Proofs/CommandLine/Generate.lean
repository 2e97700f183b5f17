import Arbor.CommandLine.Folder
import Arbor.Proofs.Config.Resolve

/-! # What a generating command leaves

In a folder a command ends with a result and prints lines, whatever was there before.
How a generating command ends follows from its run, and what it prints is told by the
run's result.
-/

namespace Arbor.CommandLine

def Output.text? : Output → Option String
  | .text s => some s
  | .record _ => none

/-- Whatever was there before, a command ends in the given way, leaves the folder as it is and
prints the given texts. -/
def Leaves {α : Type} (x : InFolder α) (ending : Except Failure α) (texts : List String) : Prop :=
  ∀ trace : Trace, ∃ output,
    x.run.run trace = (ending, { trace with output := output ++ trace.output }) ∧
      output.reverse.filterMap Output.text? = texts

section Leaves

variable {α β : Type} {x : InFolder α} {f : α → InFolder β} {a : α} {e : Failure}
  {ending : Except Failure β} {texts texts' : List String}

theorem leaves_pure (a : α) : Leaves (pure a) (.ok a) [] := fun _ => ⟨[], rfl, rfl⟩

theorem leaves_fail (e : Failure) : Leaves (fail e : InFolder α) (.error e) [] :=
  fun _ => ⟨[], rfl, rfl⟩

theorem Leaves.bind (hx : Leaves x (.ok a) texts) (hf : Leaves (f a) ending texts') :
    Leaves (x >>= f) ending (texts ++ texts') := by
  intro trace
  obtain ⟨output, hr, rfl⟩ := hx trace
  obtain ⟨output', hr', rfl⟩ := hf { trace with output := output ++ trace.output }
  refine ⟨output' ++ output, ?_, by simp⟩
  rw [ExceptT.run_bind, StateT.run_bind, hr, List.append_assoc]
  exact hr'

theorem Leaves.bind_error (hx : Leaves x (.error e) texts) :
    Leaves (x >>= f) (.error e) texts := by
  intro trace
  obtain ⟨output, hr, rfl⟩ := hx trace
  refine ⟨output, ?_, rfl⟩
  rw [ExceptT.run_bind, StateT.run_bind, hr]
  rfl

theorem Leaves.seq (hx : Leaves x (.ok a) []) (hf : Leaves (f a) ending texts) :
    Leaves (x >>= f) ending texts := hx.bind hf

end Leaves

variable {filter : Log.Filter}

/-! ## Log records -/

theorem leaves_note (level : Log.Level) (topic : Log.Topic) (message : String) :
    Leaves (Desk.note ⟨inFolder, filter⟩ level topic message) (.ok ()) [] := by
  simp only [Desk.note]
  split
  · exact fun _ => ⟨[.record _], rfl, rfl⟩
  · exact leaves_pure ()

theorem leaves_notePasses (iteration : Nat) (sizes : List Nat) :
    Leaves (notePasses ⟨inFolder, filter⟩ iteration sizes) (.ok ()) [] := by
  induction sizes generalizing iteration with
  | nil => exact leaves_pure ()
  | cons size rest ih => exact (leaves_note _ _ _).seq (ih _)

theorem leaves_noteTimes (level : Log.Level) (topic : Log.Topic) (message : String) (n : Nat) :
    Leaves (noteTimes ⟨inFolder, filter⟩ level topic message n) (.ok ()) [] := by
  induction n with
  | zero => exact leaves_pure ()
  | succ n ih => exact (leaves_note _ _ _).seq ih

/-! ## Printed lines -/

theorem leaves_print (s : String) : Leaves (inFolder.print s) (.ok ()) [s] :=
  fun _ => ⟨[.text s], rfl, rfl⟩

theorem leaves_printAll (lines : List String) :
    Leaves (printAll ⟨inFolder, filter⟩ lines) (.ok ()) lines := by
  induction lines with
  | nil => exact leaves_pure ()
  | cons line rest ih => exact (leaves_print line).bind ih

theorem leaves_forM {ι : Type} (xs : Array ι) (line : ι → String) :
    Leaves (xs.forM fun x => inFolder.print (line x)) (.ok ()) (xs.toList.map line) := by
  obtain ⟨xs, rfl⟩ : ∃ l : List ι, xs = l.toArray := ⟨xs.toList, xs.toArray_toList.symm⟩
  rw [Array.forM_eq_forM, List.forM_toArray]
  induction xs with
  | nil => exact leaves_pure ()
  | cons x rest ih => exact (leaves_print (line x)).bind ih

/-! ## Runs -/

theorem leaves_orConfigFailure {α : Type} (x : Except ConfigError α) :
    Leaves (orConfigFailure x : InFolder α) (x.mapError fun e => .generation (.config e)) [] := by
  cases x with
  | error e => exact leaves_fail _
  | ok a => exact leaves_pure a

theorem leaves_resolve (filter : Log.Filter) (c : Config) (run : Overrides) (seed : Option String) :
    Leaves (resolve ⟨inFolder, filter⟩ c run seed)
      ((c.resolve run seed).mapError fun e => .generation (.config e)) [] := by
  unfold resolve
  cases c.resolve run seed with
  | error e => exact (leaves_orConfigFailure (.error e)).bind_error
  | ok resolved =>
    exact (leaves_orConfigFailure (.ok resolved)).seq
      ((leaves_note _ _ _).seq (leaves_pure resolved))

theorem leaves_generate (filter : Log.Filter) (g : Grammar) (p : Generation.Params) :
    Leaves (generate ⟨inFolder, filter⟩ g p) ((Generation.run g p).mapError .generation) [] := by
  simp only [generate, Generation.run, Generation.stream]
  cases Generation.grow g p with
  | error e => exact (leaves_orConfigFailure (.error e)).bind_error
  | ok grown =>
    refine (leaves_orConfigFailure (.ok grown)).seq ?_
    refine (leaves_note _ _ _).seq ((leaves_note _ _ _).seq ((leaves_notePasses _ _).seq ?_))
    simp only
    obtain ⟨result, events⟩ := grown.walk p.turtle Array.push #[]
    cases result with
    | error e => exact leaves_fail _
    | ok finished =>
      refine (leaves_note _ _ _).seq ((leaves_noteTimes _ _ _ _).seq ?_)
      simp only
      split
      · exact (leaves_note _ _ _).seq ((leaves_note _ _ _).seq (leaves_pure _))
      · exact (leaves_note _ _ _).seq (leaves_pure _)

def transcript (symbols events : Bool) :
    Entry × Generation.Params × Generation.Recorded → List String
  | (entry, params, recorded) =>
    [s!"{entry.name} [{entry.id}] seed={params.seed} iterations={params.iterations}",
      recorded.report.toJson.pretty] ++
    (if symbols then [String.ofList recorded.word] else []) ++
    if events then recorded.events.toList.map (·.toJson.compact) else []

/-- A generating command ends like the run that it resolves, and prints its transcript only
after the run has succeeded. -/
theorem leaves_obey_generate (filter : Log.Filter) (c : Config) (seed : Option String)
    (run : Overrides) (symbols events : Bool) :
    match c.recorded run seed with
    | .error e =>
      Leaves (obey ⟨inFolder, filter⟩ c seed (.generate run symbols events))
        (.error (.generation e)) []
    | .ok result =>
      Leaves (obey ⟨inFolder, filter⟩ c seed (.generate run symbols events)) (.ok ())
        (transcript symbols events result) := by
  have hc := leaves_resolve filter c run seed
  simp only [obey, Config.recorded]
  cases hs : c.resolve run seed with
  | error e =>
    rw [hs] at hc
    simp only
    exact hc.bind_error
  | ok resolved =>
    obtain ⟨entry, params⟩ := resolved
    rw [hs] at hc
    have hg := leaves_generate filter entry.grammar params
    cases hr : Generation.run entry.grammar params with
    | error e =>
      rw [hr] at hg
      simp only [hr]
      refine hc.seq ?_
      exact hg.bind_error
    | ok recorded =>
      rw [hr] at hg
      simp only [hr]
      refine hc.seq ?_
      refine hg.seq ?_
      rw [transcript, List.append_assoc]
      refine (leaves_printAll _).bind ?_
      cases symbols <;> cases events
      · exact leaves_pure ()
      · exact leaves_forM _ _
      · exact leaves_print _
      · exact (leaves_print _).bind (leaves_forM _ _)

theorem leaves_obey_generate_events (filter : Log.Filter) (c : Config) (seed : Option String)
    (run : Overrides) (symbols : Bool) :
    match c.events run seed with
    | .error e =>
      Leaves (obey ⟨inFolder, filter⟩ c seed (.generate run symbols true))
        (.error (.generation e)) []
    | .ok events => ∃ lines,
      Leaves (obey ⟨inFolder, filter⟩ c seed (.generate run symbols true)) (.ok ())
        (lines ++ events.map (·.toJson.compact)) := by
  have h := leaves_obey_generate filter c seed run symbols true
  rw [Config.events_eq_map_recorded]
  cases hr : c.recorded run seed with
  | error e =>
    rw [hr] at h
    exact h
  | ok result =>
    rw [hr] at h
    exact ⟨_, h⟩

end Arbor.CommandLine
