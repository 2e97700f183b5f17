import Arbor.Decimal.Style
import Arbor.Random.Xorshift
import Arbor.Text.Quoted

/-! # Causes of failure

What can be wrong with a grammar, with the parameters of a run or with a run
itself, and how each cause is told.
-/

namespace Arbor

inductive Parameter where
  | lengthDecay
  | radiusDecay
  | angleOffset
  | position
  | direction
  | length
  | radius
  | angle
  deriving DecidableEq, Repr

def Parameter.name : Parameter → String
  | lengthDecay => "length_decay"
  | radiusDecay => "radius_decay"
  | angleOffset => "angle_offset"
  | position => "initial_state.position"
  | direction => "initial_state.direction"
  | length => "initial_state.length"
  | radius => "initial_state.radius"
  | angle => "initial_state.angle"

def SeedFault.reason : SeedFault → String
  | empty => "seed is empty"
  | degenerate => "seed hashes to the degenerate zero state"

/-- A fault that is found before any work is done. -/
inductive ConfigError where
  | emptyRules
  | emptyStart
  | ruleInput (index : Nat) (input : String)
  | weight (index : Nat) (input : Char) (value : Float)
  | negativeIterations (n : Int)
  | iterationsOutOfRange (n : Int)
  | tooManyIterations (requested limit : Nat)
  | malformedSeed (seed : String) (fault : SeedFault)
  | parameter (which : Parameter) (value : Float)
  | zeroDirection
  | color (text : String)
  | unknownGrammar (id : String)
  deriving Repr

def ConfigError.message : ConfigError → String
  | emptyRules => "grammar has no rules"
  | emptyStart => "grammar axiom is empty"
  | ruleInput i s => s!"rule {i}: input must be exactly one symbol, got " ++ Text.quoted s
  | weight i c w =>
    s!"rule {i} (" ++ c.toString ++ "): probability must be finite and >= 0, got " ++
      Decimal.plain.write w
  | negativeIterations n => s!"iterations must be non-negative, got {n}"
  | iterationsOutOfRange n => s!"iterations {n} do not fit in 32 bits"
  | tooManyIterations n limit => s!"iterations {n} exceed the configured limit of {limit}"
  | malformedSeed s fault =>
    "seed " ++ Text.quoted s ++ " is malformed: " ++ fault.reason
  | parameter p x => p.name ++ " is out of range: " ++ Decimal.plain.write x
  | zeroDirection => "initial direction must be a non-zero vector"
  | color s => "invalid color " ++ Text.quoted s ++ ", expected #rrggbb"
  | unknownGrammar id => "unknown grammar: " ++ id

inductive GenerationError where
  | config (fault : ConfigError)
  | expansionTooLarge (iteration limit : Nat)
  deriving Repr

def GenerationError.message : GenerationError → String
  | config fault => fault.message
  | expansionTooLarge i limit => s!"expansion exceeded {limit} symbols during iteration {i}"

/-! ## How an action ends -/

section Outcome

variable {ε α β : Type} {x : Except ε α}

theorem exists_eq_ok_of_isOk (h : x.isOk = true) : ∃ a, x = .ok a := by
  cases x with
  | error e => cases h
  | ok a => exact ⟨a, rfl⟩

theorem exists_eq_error_of_isOk (h : x.isOk = false) : ∃ e, x = .error e := by
  cases x with
  | error e => exact ⟨e, rfl⟩
  | ok a => cases h

theorem exists_eq_ok_of_map {f : α → β} {b : β} (h : x.toOption.map f = some b) :
    ∃ a, x = .ok a ∧ f a = b := by
  cases x with
  | error e => cases h
  | ok a => exact ⟨a, rfl, Option.some.inj h⟩

end Outcome

end Arbor
