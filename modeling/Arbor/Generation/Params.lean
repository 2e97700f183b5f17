import Arbor.Grammar.Growth
import Arbor.Power
import Arbor.Turtle.Walk

/-! # Parameters of a run

Everything a run needs besides a grammar. All of it is checked before the run
starts; the check hands out the generator and the turtle to begin with.
-/

namespace Arbor.Generation

structure Params where
  iterations : Nat
  seed : String
  initial : Turtle.State Float
  turtle : Turtle.Params Float
  limits : Limits
  deriving Repr

namespace Params

def standard : Params := ⟨4, Xorshift.defaultSeed, .standard, .standard, .standard⟩

/-- The number of passes that an integer stands for, within thirty-two bits. -/
def iterationsOf (n : Int) : Except ConfigError Nat :=
  if n < 0 then .error (.negativeIterations n)
  else if (twoPow 32 : Int) ≤ n then .error (.iterationsOutOfRange n)
  else .ok n.toNat

def generatorOf (seed : String) : Except ConfigError Xorshift :=
  match Xorshift.ofSeed seed with
  | .ok g => .ok g
  | .error fault => .error (.malformedSeed seed fault)

/-- Checks the number of passes, the turtle's parameters, the initial state and
the seed, in this order. -/
def validate (p : Params) : Except ConfigError (Xorshift × Turtle.State Float) := do
  p.limits.checkIterations p.iterations
  p.turtle.validate
  let initial ← p.initial.validated
  let generator ← generatorOf p.seed
  return (generator, initial)

end Params

end Arbor.Generation
