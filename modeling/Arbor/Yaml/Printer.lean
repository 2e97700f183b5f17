import Arbor.Json.Printer
import Arbor.Text.Printable

/-! # Printed YAML

Values in block style: one field or item on a line, two more spaces for every
level, and all texts in double quotes.
-/

namespace Arbor.Yaml

def quoteChar (c : Char) : List Char :=
  if c = '"' ∨ c = '\\' then ['\\', c]
  else if Text.isPrintable c then [c]
  else if c.toNat < 0x100 then '\\' :: 'x' :: Text.hexFixed 2 c.toNat
  else if c.toNat < 0x10000 then '\\' :: 'u' :: Text.hexFixed 4 c.toNat
  else '\\' :: 'U' :: Text.hexFixed 8 c.toNat

def quote (s : String) : List Char := '"' :: s.toList.flatMap quoteChar ++ ['"']

def printReal (x : Float) : List Char :=
  if x.isFinite then Json.writeReal x
  else if x.isNaN then ['.', 'n', 'a', 'n']
  else if 0 < x then ['.', 'i', 'n', 'f']
  else ['-', '.', 'i', 'n', 'f']

def lineStart (indent : Nat) : List Char := '\n' :: List.replicate indent ' '

mutual

/-- Writes a value behind a field's colon or an item's dash. -/
def print (indent : Nat) : Json → List Char
  | .null => [' ', '~']
  | .bool b => ' ' :: (Json.bool b).write
  | .int n => ' ' :: Json.writeInt n
  | .real x => ' ' :: printReal x
  | .text s => ' ' :: quote s
  | .list [] => [' ', '[', ']']
  | .list (v :: rest) => printItems indent (v :: rest)
  | .object [] => [' ', '\x7b', '\x7d']
  | .object (f :: rest) => printFields indent (f :: rest)

def printItems (indent : Nat) : List Json → List Char
  | [] => []
  | v :: rest => lineStart indent ++ '-' :: print (indent + 2) v ++ printItems indent rest

def printFields (indent : Nat) : List (String × Json) → List Char
  | [] => []
  | (k, v) :: rest =>
    lineStart indent ++ quote k ++ ':' :: print (indent + 2) v ++ printFields indent rest

end

def text (v : Json) : String := String.ofList (print 0 v ++ ['\n'])

end Arbor.Yaml
