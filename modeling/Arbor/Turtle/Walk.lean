import Arbor.Event.Basic
import Arbor.Grammar.Basic
import Arbor.Random.Source
import Arbor.Turtle.Command
import Arbor.Turtle.State

/-! # Walking a word

The turtle goes through the symbols of a word, acts on its commands and hands
draw events to a sink. A turn puts the heading on the cone of its angle around
the upward direction, at a place that is drawn.
-/

namespace Arbor.Turtle

/-- What stays the same during a walk. -/
structure Params (α : Type) where
  /-- Factor on the length after each segment. -/
  lengthDecay : α
  /-- Factor on the radius after each segment. -/
  radiusDecay : α
  /-- Degrees of one turn. -/
  angleOffset : α
  palette : Palette
  deriving DecidableEq, Repr

namespace Params

def standard : Params Float := ⟨0.9, 0.9, 20, .standard⟩

def requirePositive (p : Parameter) (x : Float) : Except ConfigError Unit :=
  if !x.isFinite || x ≤ 0 then .error (.parameter p x) else .ok ()

/-- Checks the factors and the angle, in this order. -/
def validate (p : Params Float) : Except ConfigError Unit := do
  requirePositive .lengthDecay p.lengthDecay
  requirePositive .radiusDecay p.radiusDecay
  requireFinite .angleOffset p.angleOffset

end Params

structure Walker (α ρ : Type) where
  stack : Stack α
  source : ρ

variable {α ρ σ : Type} [Geometric α]

@[inline] def radians (degrees : α) : α := degrees * (Geometric.pi / Scalar.ofInt 180)

@[inline] def State.destination (s : State α) : Vec3 α :=
  s.position + s.direction.normalize.scale s.length

@[inline] def State.segment (s : State α) (palette : Palette) : List (Event α) :=
  [.point s.position palette.point, .point s.destination palette.point,
    .arrow s.position s.direction.normalize s.length palette.arrow]

@[inline] def State.advance (s : State α) (params : Params α) : State α :=
  { s with
    position := s.destination
    length := s.length * params.lengthDecay
    radius := s.radius * params.radiusDecay }

@[inline] def State.turn (s : State α) (degrees azimuth : α) : State α :=
  let angle := s.angle + degrees
  { s with angle, direction := (Vec3.ofSpherical (radians angle) azimuth).normalize }

/-- Turns the current state; the azimuth is drawn from the full circle. -/
@[inline] def Walker.turn [RandomSource ρ α] (w : Walker α ρ) (degrees : α) : Walker α ρ :=
  let (azimuth, source) :=
    RandomSource.drawBetween 0 (Scalar.ofInt 2 * Geometric.pi) w.source
  ⟨{ w.stack with current := w.stack.current.turn degrees azimuth }, source⟩

/-- The marker of a closing bracket, and the stack after it. -/
@[inline] def restore (params : Params α) (stack : Stack α) : Event α × Stack α :=
  match stack.pop? with
  | some stack => (.marker stack.current.position params.palette.restore, stack)
  | none => (.marker stack.current.position params.palette.unmatchedRestore, stack)

/-- Obeys one command: the events it draws, and the walker after it. -/
@[specialize] def obey [RandomSource ρ α] (params : Params α) (w : Walker α ρ) :
    Command → List (Event α) × Walker α ρ
  | .advance =>
    (w.stack.current.segment params.palette,
      { w with stack := { w.stack with current := w.stack.current.advance params } })
  | .turnPositive => ([], w.turn params.angleOffset)
  | .turnNegative => ([], w.turn (-params.angleOffset))
  | .push => ([], { w with stack := w.stack.push })
  | .pop =>
    let (event, stack) := restore params w.stack
    ([event], { w with stack })

/-- Takes one symbol; those without a command do nothing. -/
@[specialize] def step [RandomSource ρ α] (params : Params α) (w : Walker α ρ) (c : Char) :
    List (Event α) × Walker α ρ :=
  match Command.ofSymbol? c with
  | some command => obey params w command
  | none => ([], w)

/-- Walks a word and hands every event, in order, to a sink. -/
@[specialize] def walk [RandomSource ρ α] (params : Params α) (emit : σ → Event α → σ) :
    Word → Walker α ρ → σ → Walker α ρ × σ
  | [], w, sink => (w, sink)
  | c :: rest, w, sink =>
    let (events, w) := step params w c
    walk params emit rest w (events.foldl emit sink)

end Arbor.Turtle
