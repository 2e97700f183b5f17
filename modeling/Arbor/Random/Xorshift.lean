import Arbor.Random.Source
import Arbor.Text.Units

/-! # The seeded generator

A 32-bit shift register that is started from the hash of a seed text. Zero is
the one state that the register never leaves, so seeds that hash to it are
refused.
-/

namespace Arbor

structure Xorshift where
  state : UInt32
  deriving DecidableEq, Repr

inductive SeedFault where
  | empty
  | degenerate
  deriving DecidableEq, Repr

namespace Xorshift

/-- The hash of a seed: its sixteen-bit units, last to first, each mixed into
thirty-three times the hash so far. -/
def hash (seed : String) : UInt32 :=
  (Text.units seed).foldr (fun unit acc => acc * 33 ^^^ unit) 5381

def step (x : UInt32) : UInt32 :=
  let x := x ^^^ x <<< 21
  let x := x ^^^ x >>> 3
  x ^^^ x <<< 4

/-- The place of a state in the unit interval; the top state is kept below one. -/
@[inline] def unit {α : Type} [Scalar α] (x : UInt32) : α :=
  Scalar.min (Scalar.ofInt x.toNat / Scalar.ofInt 0xffffffff)
    (1 - 1 / Scalar.ofInt 0x10000000000000)

def ofSeed (seed : String) : Except SeedFault Xorshift :=
  if seed.isEmpty then .error .empty
  else
    let state := hash seed
    if state = 0 then .error .degenerate else .ok ⟨state⟩

def defaultSeed : String := "default"

def default : Xorshift := ⟨hash defaultSeed⟩

instance {α : Type} [Scalar α] : RandomSource Xorshift α where
  draw g :=
    let state := step g.state
    (unit state, ⟨state⟩)

end Xorshift

end Arbor
