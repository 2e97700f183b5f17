import Arbor.Decimal.Shortest

/-! # Written numbers

How a number's shortest digits are laid out: with an exponent or without, with a
fraction part kept for whole numbers or dropped, and which words stand for
infinities and not-a-number.
-/

namespace Arbor.Decimal

open Binary64

/-- The decisions that make up one way to write numbers. -/
structure Style where
  tie : Tie
  /-- Exponents of the leading digit, ends included, that need no exponent part;
  without a range none does. -/
  positional : Option (Int × Int)
  /-- Whether a whole number keeps `.0`. -/
  wholePart : Bool
  notANumber : String
  infinity : String

def digits (n : Nat) : List Char := Nat.toDigits 10 n

def withoutExponent (wholePart : Bool) (d : Scientific) : List Char :=
  let ds := digits d.digits
  if 0 ≤ d.exponent then
    ds ++ List.replicate d.exponent.toNat '0' ++ if wholePart then ['.', '0'] else []
  else
    let places := (-d.exponent).toNat
    let padded := List.replicate (places + 1 - ds.length) '0' ++ ds
    padded.take (padded.length - places) ++ '.' :: padded.drop (padded.length - places)

/-- Digits with an exponent part, which always has a sign. -/
def withExponent (d : Scientific) : List Char :=
  let ds := digits d.digits
  let e := d.exponent + (ds.length - 1)
  let mantissa := match ds with
    | [] => []
    | [c] => [c]
    | c :: rest => c :: '.' :: rest
  mantissa ++ 'e' :: (if e < 0 then '-' else '+') :: digits e.natAbs

def Style.write (s : Style) (x : Float) : String :=
  match parts? x with
  | none =>
    if x.isNaN then s.notANumber
    else if signBit x then "-" ++ s.infinity else s.infinity
  | some d =>
    let body :=
      if d.significand = 0 then withoutExponent s.wholePart ⟨0, 0⟩
      else
        let short := shortest s.tie d
        let lead := short.exponent + ((digits short.digits).length - 1)
        match s.positional with
        | none => withoutExponent s.wholePart short
        | some (low, high) =>
          if low ≤ lead ∧ lead ≤ high then withoutExponent s.wholePart short
          else withExponent short
    String.ofList (if d.negative then '-' :: body else body)

/-- Numbers in messages and listings: never an exponent, no empty fraction. -/
def plain : Style :=
  ⟨.up, none, false, "NaN", "inf"⟩

example : plain.write 1e21 = "1000000000000000000000" ∧ plain.write (-1e-7) = "-0.0000001" := by
  decide

end Arbor.Decimal
