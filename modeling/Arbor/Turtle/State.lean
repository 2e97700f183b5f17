import Arbor.Error
import Arbor.Vec3

/-! # The turtle and its saved states

A turtle has a place, a heading and the measures of its next segment. Saved
states lie on a stack below the current one, which is always there.
-/

namespace Arbor.Turtle

structure State (α : Type) where
  position : Vec3 α
  /-- The heading. -/
  direction : Vec3 α
  /-- The length of the next segment. -/
  length : α
  radius : α
  /-- The angle from the upward direction, in degrees. -/
  angle : α
  deriving DecidableEq, Repr, Inhabited

def State.standard : State Float := ⟨.zero, .up, 0.5, 0.1, 0⟩

def requireFinite (p : Parameter) (x : Float) : Except ConfigError Unit :=
  if x.isFinite then .ok () else .error (.parameter p x)

def requireFiniteVector (p : Parameter) (v : Vec3 Float) : Except ConfigError Unit :=
  if v.isFinite then .ok () else .error (.parameter p v.length)

/-- A state with finite parts and a heading, which is scaled to unit length. -/
def State.validated (s : State Float) : Except ConfigError (State Float) := do
  requireFiniteVector .position s.position
  requireFiniteVector .direction s.direction
  if s.direction.length == 0 then throw .zeroDirection
  requireFinite .length s.length
  requireFinite .radius s.radius
  requireFinite .angle s.angle
  return { s with direction := s.direction.normalize }

/-- The current state and the saved ones, last saved first. -/
structure Stack (α : Type) where
  current : State α
  saved : List (State α)
  deriving DecidableEq, Repr

namespace Stack

variable {α : Type}

def ofState (s : State α) : Stack α := ⟨s, []⟩

def depth (s : Stack α) : Nat := s.saved.length

/-- The number of entries, the current one included. -/
def size (s : Stack α) : Nat := s.depth + 1

def toList (s : Stack α) : List (State α) := s.current :: s.saved

@[inline] def push (s : Stack α) : Stack α := ⟨s.current, s.current :: s.saved⟩

@[inline] def pop? (s : Stack α) : Option (Stack α) :=
  match s.saved with
  | [] => none
  | top :: rest => some ⟨top, rest⟩

/-- Resumes the last saved state, or stays as it is. -/
@[inline] def pop (s : Stack α) : Stack α := s.pop?.getD s

theorem pop?_push (s : Stack α) : s.push.pop? = some s := rfl

theorem one_le_size (s : Stack α) : 1 ≤ s.size := Nat.le_add_left 1 s.depth

end Stack

end Arbor.Turtle
