import Arbor.Decimal.Reading
import Arbor.Power
import Arbor.Text.Hex

/-! # Meanings of plain scalars

Which words stand for nothing, for truth values and for numbers. Integers may be
written in base two, eight or sixteen; digits behind a leading zero are no number.
-/

namespace Arbor.Yaml

def isNull (s : String) : Bool := ["null", "Null", "NULL", "~"].contains s

def bool? (s : String) : Option Bool :=
  if ["true", "True", "TRUE"].contains s then some true
  else if ["false", "False", "FALSE"].contains s then some false
  else none

def radix? (base : Nat) (ds : List Char) : Option Nat := do
  let values ← ds.mapM fun d => (Text.hexValue? d).filter (· < base)
  if values = [] then none else some (values.foldl (fun n v => n * base + v) 0)

/-- The base that a numeral's first two characters name, and its digits. -/
def baseOf? : List Char → Option (Nat × List Char)
  | '0' :: 'x' :: r => some (16, r)
  | '0' :: 'o' :: r => some (8, r)
  | '0' :: 'b' :: r => some (2, r)
  | _ => none

/-- Whether digits behind a leading zero keep a word from being a number. -/
def isZeroPadded (s : List Char) : Bool :=
  let ds := match s with
    | '-' :: r => r
    | '+' :: r => r
    | r => r
  1 < ds.length && ds.head? == some '0' && ds.tail.all Char.isDigit

def startsSigned (s : List Char) : Bool := s.head? == some '-' || s.head? == some '+'

def dropPlus : List Char → List Char
  | '+' :: r => r
  | r => r

/-- An integer without a minus sign, up to a greatest value. -/
def unsigned? (greatest : Nat) (s : List Char) : Option Nat :=
  let bounded (n : Option Nat) := n.filter (· ≤ greatest)
  let body := dropPlus s
  match baseOf? body with
  | some (base, ds) => bounded (radix? base ds)
  | none => if isZeroPadded s then none else bounded (radix? 10 body)

def negative? (greatest : Nat) : List Char → Option Int
  | '-' :: body =>
    let bounded (n : Option Nat) := (n.filter (· ≤ greatest)).map fun n => -(n : Int)
    match baseOf? body with
    | some (base, ds) => bounded (radix? base ds)
    | none => if isZeroPadded body then none else bounded (radix? 10 body)
  | _ => none

def int64? (s : List Char) : Option Int :=
  ((unsigned? (twoPow 63 - 1) s).map Int.ofNat).or (negative? (twoPow 63) s)

/-- A number: a decimal numeral of finite size, or a word for infinity or
not-a-number. -/
def float? (s : List Char) : Option Float :=
  let body := dropPlus s
  if s.length ≠ body.length && startsSigned body then none
  else if [".inf", ".Inf", ".INF"].contains (String.ofList body) then some (1 / 0)
  else if ["-.inf", "-.Inf", "-.INF"].contains (String.ofList s) then some (-1 / 0)
  else if [".nan", ".NaN", ".NAN"].contains (String.ofList s) then some (0 / 0)
  else ((Decimal.Numeral.parse? body).map Decimal.Numeral.toFloat).filter Float.isFinite

end Arbor.Yaml
