import Arbor.Binary64
import Arbor.Power

/-! # Shortest decimal digits

The fewest decimal digits that read back as a given machine number, and among
those the digits nearest to it. A number stands for the interval of reals that
round to it; the search tries coarser decimal grids before finer ones, in exact
natural arithmetic.
-/

namespace Arbor.Decimal

open Binary64

/-- Which of two equally near digit strings is taken. -/
inductive Tie where
  | up
  | even
  deriving DecidableEq, Repr

/-- A decimal `digits * 10 ^ exponent` with a natural number of digits. -/
structure Scientific where
  digits : Nat
  exponent : Int
  deriving DecidableEq, Repr

/-- A positive dyadic number with the reals that round to it, all over one
common denominator. -/
structure Rounding where
  low : Nat
  value : Nat
  high : Nat
  denominator : Nat
  /-- Whether the ends of the interval round to the number as well. -/
  closed : Bool

/-- The reals that round to a positive number: half a step on both sides, or a
quarter below where the steps get smaller. -/
def Rounding.ofParts (d : Parts) : Rounding :=
  let below := if d.significand = twoPow 52 ∧ -1074 < d.exponent then 1 else 2
  let scale := twoPow (d.exponent - 2).toNat
  { low := (4 * d.significand - below) * scale
    value := 4 * d.significand * scale
    high := (4 * d.significand + 2) * scale
    denominator := twoPow (2 - d.exponent).toNat
    closed := d.significand % 2 = 0 }

/-- Whether `n / unit` rounds to the number, for a numerator over the common
denominator. -/
def Rounding.contains (r : Rounding) (n : Nat) : Bool :=
  if r.closed then r.low ≤ n && n ≤ r.high else r.low < n && n < r.high

/-- The grid point of step `10 ^ k` that rounds to the number and is nearest to
it, counted in steps. -/
def Rounding.onGrid? (r : Rounding) (tie : Tie) (k : Int) : Option Nat :=
  let scale := tenPow (-k).toNat
  let unit := r.denominator * tenPow k.toNat
  let scaled : Rounding :=
    { r with low := r.low * scale, value := r.value * scale, high := r.high * scale }
  let j := scaled.value / unit
  let below := scaled.value - j * unit
  let above := (j + 1) * unit - scaled.value
  match scaled.contains (j * unit), scaled.contains ((j + 1) * unit) with
  | true, false => some j
  | false, true => some (j + 1)
  | false, false => none
  | true, true =>
    if below < above then some j
    else if above < below then some (j + 1)
    else match tie with
      | .up => some (j + 1)
      | .even => some (if j % 2 = 0 then j else j + 1)

/-- Tries ever finer grids, from step `10 ^ k` on. -/
def Rounding.search (r : Rounding) (tie : Tie) : (fuel : Nat) → (k : Int) → Scientific
  | 0, k => ⟨r.value * tenPow (-k).toNat / (r.denominator * tenPow k.toNat), k⟩
  | fuel + 1, k =>
    match r.onGrid? tie k with
    | some j => ⟨j, k⟩
    | none => r.search tie fuel (k - 1)

def leadingExponent (d : Parts) : Int :=
  let guess := ((d.significand.log2 : Int) + d.exponent) * 30103 / 100000
  let reaches (k : Int) : Bool :=
    tenPow k.toNat * twoPow (-d.exponent).toNat ≤
      d.significand * twoPow d.exponent.toNat * tenPow (-k).toNat
  if reaches (guess + 1) then guess + 1 else if reaches guess then guess else guess - 1

def Scientific.trim (d : Scientific) : (fuel : Nat) → Scientific
  | 0 => d
  | fuel + 1 =>
    if d.digits ≠ 0 ∧ d.digits % 10 = 0 then
      Scientific.trim ⟨d.digits / 10, d.exponent + 1⟩ fuel
    else d

def shortest (tie : Tie) (d : Parts) : Scientific :=
  let r := Rounding.ofParts d
  (r.search tie 20 (leadingExponent d)).trim 20

example : shortest .even ⟨false, twoPow 52, -53⟩ = ⟨5, -1⟩ := by decide +kernel
example : shortest .even ⟨false, 1, -1074⟩ = ⟨5, -324⟩ := by decide +kernel

end Arbor.Decimal
