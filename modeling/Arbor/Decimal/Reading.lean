/-! # Reading decimals

The machine number nearest to a decimal numeral.
-/

namespace Arbor.Decimal

/-- A decimal numeral taken apart: all digits as one number, and the power of
ten that they are scaled by. -/
structure Numeral where
  negative : Bool
  digits : Nat
  exponent : Int
  deriving Repr, DecidableEq

/-- The machine number nearest to a numeral. Beyond four hundred places on
either side nothing but zero or infinity is left. -/
def Numeral.toFloat (n : Numeral) : Float :=
  let size : Int := (Nat.toDigits 10 n.digits).length
  let magnitude :=
    if n.digits = 0 ∨ n.exponent + size < -400 then 0.0
    else if 400 < n.exponent + size then 1.0 / 0.0
    else Float.ofScientific n.digits (n.exponent < 0) n.exponent.natAbs
  if n.negative then -magnitude else magnitude

def digitsValue (ds : List Char) : Nat :=
  ds.foldl (fun n c => n * 10 + (c.toNat - 48)) 0

def splitSign : List Char → Bool × List Char
  | '-' :: r => (true, r)
  | '+' :: r => (false, r)
  | r => (false, r)

/-- Reads an exponent part, which must have a digit. -/
def exponent? : List Char → Option Int
  | [] => some 0
  | c :: r =>
    if c = 'e' ∨ c = 'E' then
      let (negative, ds) := splitSign r
      if ds ≠ [] ∧ ds.all Char.isDigit then
        let n : Int := digitsValue ds
        some (if negative then -n else n)
      else none
    else none

/-- Reads a numeral: an optional sign, digits with at most one point among or
beside them, and an optional exponent. -/
def Numeral.parse? (s : List Char) : Option Numeral :=
  let (negative, r) := splitSign s
  let whole := r.takeWhile Char.isDigit
  let rest := r.dropWhile Char.isDigit
  let (fraction, tail) := match rest with
    | '.' :: t => (t.takeWhile Char.isDigit, t.dropWhile Char.isDigit)
    | t => ([], t)
  if whole = [] ∧ fraction = [] then none
  else (exponent? tail).map fun e =>
    ⟨negative, digitsValue (whole ++ fraction), e - fraction.length⟩

end Arbor.Decimal
