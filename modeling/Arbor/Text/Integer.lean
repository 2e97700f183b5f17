/-! # Written integers

An integer is at least one decimal digit after an optional sign.
-/

namespace Arbor.Text

/-- The value of decimal digits, of which there is at least one. -/
def natural? (ds : List Char) : Option Nat :=
  if !ds.isEmpty && ds.all Char.isDigit then
    some (ds.foldl (fun n d => n * 10 + (d.toNat - '0'.toNat)) 0)
  else none

def integer? : List Char → Option Int
  | '-' :: ds => (natural? ds).map fun n => -(n : Int)
  | '+' :: ds => (natural? ds).map Int.ofNat
  | ds => (natural? ds).map Int.ofNat

def integerWithin? (low high : Int) (s : String) : Option Int :=
  (integer? s.toList).filter fun n => low ≤ n && n ≤ high

end Arbor.Text
