import Arbor.Event.Summary
import Arbor.Generation.Params

/-! # Runs

A run grows a grammar's start word and walks the result. Both parts draw from one
generator, first the growth and then the walk, so that a seed fixes everything.
The sink sees no event before the growth has succeeded.
-/

namespace Arbor.Generation

structure Report where
  symbols : Nat
  events : Summary Float
  /-- Entries left on the turtle's stack. -/
  stackSize : Nat
  deriving Repr

/-- A finished run: the grown word and the report on its walk. -/
structure Finished where
  word : Word
  report : Report

/-- A run whose growth is over: how that ended, and the turtle that is to walk. -/
structure Grown where
  growth : Growth Xorshift
  initial : Turtle.State Float

def grow (g : Grammar) (p : Params) : Except ConfigError Grown := do
  let (generator, initial) ← p.validate
  return ⟨g.index.grow p.limits g.start p.iterations generator, initial⟩

/-- Walks the grown word, if there is one, and hands the events to a sink. -/
@[specialize] def Grown.walk {σ : Type} (grown : Grown) (turtle : Turtle.Params Float)
    (emit : σ → Event Float → σ) (sink : σ) : Except GenerationError Finished × σ :=
  match grown.growth.outcome with
  | .error e => (.error e, sink)
  | .ok word =>
    let emitBoth := fun (s : Summary Float × σ) e => (s.1.add e, emit s.2 e)
    let (walker, summary, sink) :=
      Turtle.walk turtle emitBoth word ⟨.ofState grown.initial, grown.growth.source⟩ (.empty, sink)
    (.ok ⟨word, ⟨word.length, summary, walker.stack.size⟩⟩, sink)

/-- Runs a grammar and hands the events to a sink, which is returned with the
result. -/
@[specialize] def stream {σ : Type} (g : Grammar) (p : Params) (emit : σ → Event Float → σ)
    (sink : σ) : Except GenerationError Finished × σ :=
  match grow g p with
  | .error e => (.error (.config e), sink)
  | .ok grown => grown.walk p.turtle emit sink

structure Recorded extends Finished where
  events : Array (Event Float)

def run (g : Grammar) (p : Params) : Except GenerationError Recorded :=
  match stream g p Array.push #[] with
  | (.ok finished, events) => .ok { finished with events }
  | (.error e, _) => .error e

def events (g : Grammar) (p : Params) : Except GenerationError (Array (Event Float)) :=
  match stream g p Array.push #[] with
  | (.ok _, events) => .ok events
  | (.error e, _) => .error e

def report (g : Grammar) (p : Params) : Except GenerationError Report :=
  match stream g p (fun _ _ => ()) () with
  | (.ok finished, _) => .ok finished.report
  | (.error e, _) => .error e

end Arbor.Generation
