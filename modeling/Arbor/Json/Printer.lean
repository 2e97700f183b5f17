import Arbor.Decimal.Style
import Arbor.Json.Basic
import Arbor.Text.Hex

/-! # Printed JSON

Two layouts of a JSON value: without any blanks, and indented by two spaces with
one array element or object field on a line.
-/

namespace Arbor.Json

/-- Numbers have a point or an exponent; from `1e-5` up to below `1e16` the
exponent is not needed. There is no text for infinities and not-a-number. -/
def numberStyle : Decimal.Style :=
  ⟨.even, some (-5, 15), true, "null", "null"⟩

/-- Writes a number; what is not finite becomes `null`. -/
def writeReal (x : Float) : List Char :=
  if x.isFinite then (numberStyle.write x).toList else ['n', 'u', 'l', 'l']

def escape (c : Char) : List Char :=
  match c with
  | '"' => ['\\', '"']
  | '\\' => ['\\', '\\']
  | '\n' => ['\\', 'n']
  | '\r' => ['\\', 'r']
  | '\t' => ['\\', 't']
  | '\x08' => ['\\', 'b']
  | '\x0c' => ['\\', 'f']
  | c => if c.toNat < 0x20 then ['\\', 'u'] ++ Text.hexFixed 4 c.toNat else [c]

def writeText (s : String) : List Char := '"' :: s.toList.flatMap escape ++ ['"']

def writeInt (n : Int) : List Char :=
  if n < 0 then '-' :: Nat.toDigits 10 n.natAbs else Nat.toDigits 10 n.natAbs

mutual

def write : Json → List Char
  | null => ['n', 'u', 'l', 'l']
  | bool true => ['t', 'r', 'u', 'e']
  | bool false => ['f', 'a', 'l', 's', 'e']
  | int n => writeInt n
  | real x => writeReal x
  | text s => writeText s
  | list items => '[' :: writeItems items ++ [']']
  | object fields => '\x7b' :: writeFields fields ++ ['\x7d']

def writeItems : List Json → List Char
  | [] => []
  | [v] => write v
  | v :: rest => write v ++ ',' :: writeItems rest

def writeFields : List (String × Json) → List Char
  | [] => []
  | [(k, v)] => writeText k ++ ':' :: write v
  | (k, v) :: rest => writeText k ++ ':' :: write v ++ ',' :: writeFields rest

end

def newline (depth : Nat) : List Char := '\n' :: List.replicate (2 * depth) ' '

mutual

/-- Writes a value over several lines. -/
def writePretty (depth : Nat) : Json → List Char
  | list [] => ['[', ']']
  | list (v :: rest) => '[' :: writePrettyItems (depth + 1) (v :: rest) ++ newline depth ++ [']']
  | object [] => ['\x7b', '\x7d']
  | object (f :: rest) =>
    '\x7b' :: writePrettyFields (depth + 1) (f :: rest) ++ newline depth ++ ['\x7d']
  | null => write null
  | bool b => write (bool b)
  | int n => write (int n)
  | real x => write (real x)
  | text s => write (text s)

def writePrettyItems (depth : Nat) : List Json → List Char
  | [] => []
  | [v] => newline depth ++ writePretty depth v
  | v :: rest => newline depth ++ writePretty depth v ++ ',' :: writePrettyItems depth rest

def writePrettyFields (depth : Nat) : List (String × Json) → List Char
  | [] => []
  | [(k, v)] => newline depth ++ writeText k ++ ':' :: ' ' :: writePretty depth v
  | (k, v) :: rest =>
    newline depth ++ writeText k ++ ':' :: ' ' :: writePretty depth v ++
      ',' :: writePrettyFields depth rest

end

def compact (v : Json) : String := String.ofList v.write

def pretty (v : Json) : String := String.ofList (v.writePretty 0)

end Arbor.Json
