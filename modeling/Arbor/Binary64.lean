import Arbor.Power

/-! # Binary64 numbers as exact dyadic numbers

A finite machine number is a signed natural significand times a power of two.
The parts are read from the bit pattern, so rounding to an integer is exact
integer arithmetic.
-/

namespace Arbor.Binary64

/-- A dyadic number `± significand * 2 ^ exponent`. -/
structure Parts where
  negative : Bool
  significand : Nat
  exponent : Int
  deriving Repr, DecidableEq

def exponentField (x : Float) : Nat := (x.toBits >>> 52 &&& 0x7ff).toNat

def fractionField (x : Float) : Nat := (x.toBits &&& 0xfffffffffffff).toNat

def signBit (x : Float) : Bool := x.toBits >>> 63 == 1

/-- The exact value of a finite number; infinities and not-a-number have none. -/
def parts? (x : Float) : Option Parts :=
  match exponentField x with
  | 0x7ff => none
  | 0 => some ⟨signBit x, fractionField x, -1074⟩
  | e + 1 => some ⟨signBit x, twoPow 52 + fractionField x, (e : Int) - 1074⟩

def Parts.floor (d : Parts) : Int :=
  let signed : Int := if d.negative then -(d.significand : Int) else d.significand
  if 0 ≤ d.exponent then signed * twoPow d.exponent.toNat
  else signed.fdiv (twoPow (-d.exponent).toNat)

def int64Min : Int := -(twoPow 63 : Int)

def int64Max : Int := twoPow 63 - 1

/-- Rounds down to a 64-bit integer: numbers out of range give the nearest bound,
and not-a-number gives zero. -/
def floor (x : Float) : Int :=
  match parts? x with
  | some d => max int64Min (min int64Max d.floor)
  | none => if x.isNaN then 0 else if signBit x then int64Min else int64Max

example : floor 2.5 = 2 ∧ floor (-0.25) = -1 ∧ floor 1e300 = int64Max := by decide +kernel

end Arbor.Binary64
