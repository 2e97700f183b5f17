import Arbor.Decimal.Reading
import Arbor.Json.Basic
import Arbor.Power
import Arbor.Text.Hex

/-! # Reading JSON

One value per text, with blanks around its parts. A number without a fraction or
an exponent is an integer where sixty-four bits hold it. Other numbers gather as
many digits as sixty-four bits hold and scale them by a power of ten.
-/

namespace Arbor.Json

def isBlank (c : Char) : Bool := c == ' ' || c == '\n' || c == '\t' || c == '\r'

def skipBlanks (s : List Char) : List Char := s.dropWhile isBlank

structure Numeral where
  negative : Bool
  whole : List Char
  fraction : List Char
  /-- The sign and the digits behind the exponent mark. -/
  power : Option (Bool × List Char)

namespace Numeral

def wordMax : Nat := twoPow 64 - 1

/-- Adds digits to a gathered number as far as a word holds them; the rest of the
digits is left over. -/
def gather : List Char → Nat → Nat × List Char
  | [], n => (n, [])
  | c :: r, n =>
    let next := n * 10 + (c.toNat - 48)
    if next ≤ wordMax then gather r next else (n, c :: r)

/-- Scales by a power of ten in steps that machine numbers can hold; too large a
result is refused. -/
def scale : (fuel : Nat) → Float → Int → Option Float
  | 0, x, _ => some x
  | fuel + 1, x, e =>
    if e.natAbs ≤ 308 then
      let power := Float.ofScientific 1 false e.natAbs
      if 0 ≤ e then
        let y := x * power
        if y.isInf then none else some y
      else some (x / power)
    else if x == 0 then some x
    else if 0 ≤ e then none
    else scale fuel (x / Float.ofScientific 1 false 308) (e + 308)

/-- Exponents are held in thirty-two bits. -/
def powerMax : Int := 0x7fffffff

def toFloat? (n : Numeral) : Option Float :=
  let (gathered, extra) := gather n.whole 0
  let (significand, unused) := gather n.fraction gathered
  let places : Int := (extra.length : Int) - (n.fraction.length - unused.length)
  let magnitude : Option Float := match n.power with
    | none => scale 8 significand.toUInt64.toFloat places
    | some (down, ds) =>
      let p : Int := Decimal.digitsValue ds
      if powerMax < p then if significand ≠ 0 ∧ !down then none else some 0
      else
        let e := if down then places - p else places + p
        scale 8 significand.toUInt64.toFloat (max (-powerMax - 1) (min powerMax e))
  magnitude.map fun x => if n.negative then -x else x

def value? (n : Numeral) : Option Json :=
  let (significand, extra) := gather n.whole 0
  if n.fraction = [] ∧ n.power = none ∧ extra = [] then
    if !n.negative then some (.int significand)
    else if significand = 0 ∨ twoPow 63 < significand then
      some (.real (-significand.toUInt64.toFloat))
    else some (.int (-significand))
  else n.toFloat?.map .real

end Numeral

def spanDigits (s : List Char) : List Char × List Char :=
  (s.takeWhile Char.isDigit, s.dropWhile Char.isDigit)

/-- Splits off a fraction part, which has a digit if it is there. -/
def fraction? : List Char → Option (List Char × List Char)
  | '.' :: r =>
    let (ds, rest) := spanDigits r
    if ds = [] then none else some (ds, rest)
  | s => some ([], s)

def power? : List Char → Option (Option (Bool × List Char) × List Char)
  | [] => some (none, [])
  | c :: r =>
    if c = 'e' ∨ c = 'E' then
      let (down, r) := Decimal.splitSign r
      let (ds, rest) := spanDigits r
      if ds = [] then none else some (some (down, ds), rest)
    else some (none, c :: r)

/-- Splits off a numeral. Only a lone zero may begin with zero. -/
def numeral? (s : List Char) : Option (Numeral × List Char) := do
  let (negative, s) := match s with
    | '-' :: r => (true, r)
    | r => (false, r)
  let (whole, s) := spanDigits s
  if whole = [] ∨ (whole.head? = some '0' ∧ 1 < whole.length) then none
  else
    let (fraction, s) ← fraction? s
    let (power, s) ← power? s
    some (⟨negative, whole, fraction, power⟩, s)

def hex4? : List Char → Option (Nat × List Char)
  | a :: b :: c :: d :: r => do
    let a ← Text.hexValue? a
    let b ← Text.hexValue? b
    let c ← Text.hexValue? c
    let d ← Text.hexValue? d
    some (((a * 16 + b) * 16 + c) * 16 + d, r)
  | _ => none

/-- Reads the escape behind `\u`: one unit, or a pair of surrogates. -/
def unicode? (s : List Char) : Option (Char × List Char) := do
  let (hi, r) ← hex4? s
  if 0xd800 ≤ hi ∧ hi < 0xdc00 then
    match r with
    | '\\' :: 'u' :: r =>
      let (lo, r) ← hex4? r
      if 0xdc00 ≤ lo ∧ lo < 0xe000 then
        some (Char.ofNat (0x10000 + (hi - 0xd800) * 0x400 + (lo - 0xdc00)), r)
      else none
    | _ => none
  else if 0xdc00 ≤ hi ∧ hi < 0xe000 then none
  else some (Char.ofNat hi, r)

/-- Reads an escape behind its backslash. -/
def escape? : List Char → Option (Char × List Char)
  | '"' :: r => some ('"', r)
  | '\\' :: r => some ('\\', r)
  | '/' :: r => some ('/', r)
  | 'b' :: r => some ('\x08', r)
  | 'f' :: r => some ('\x0c', r)
  | 'n' :: r => some ('\n', r)
  | 'r' :: r => some ('\r', r)
  | 't' :: r => some ('\t', r)
  | 'u' :: r => unicode? r
  | _ => none

/-- Reads the rest of a string behind its opening quote. -/
def text? : (fuel : Nat) → List Char → Option (List Char × List Char)
  | 0, _ => none
  | _ + 1, [] => none
  | fuel + 1, c :: r =>
    if c = '"' then some ([], r)
    else if c = '\\' then do
      let (c, r) ← escape? r
      let (cs, r) ← text? fuel r
      some (c :: cs, r)
    else if c.toNat < 0x20 then none
    else do
      let (cs, r) ← text? fuel r
      some (c :: cs, r)

def keyword? (word : List Char) (v : Json) (s : List Char) : Option (Json × List Char) :=
  if word.isPrefixOf s then some (v, s.drop word.length) else none

mutual

/-- Reads one value; `depth` more levels of nesting are allowed. -/
def value? : (fuel : Nat) → (depth : Nat) → List Char → Option (Json × List Char)
  | 0, _, _ => none
  | fuel + 1, depth, s =>
    match skipBlanks s with
    | '"' :: r => do
      let (cs, r) ← text? (r.length + 1) r
      some (.text (String.ofList cs), r)
    | '[' :: r =>
      if depth = 0 then none
      else match skipBlanks r with
        | ']' :: r => some (.list [], r)
        | r => do
          let (items, r) ← items? fuel (depth - 1) r
          some (.list items, r)
    | '\x7b' :: r =>
      if depth = 0 then none
      else match skipBlanks r with
        | '\x7d' :: r => some (.object [], r)
        | r => do
          let (fields, r) ← fields? fuel (depth - 1) r
          some (.object fields, r)
    | 'n' :: r => keyword? ['u', 'l', 'l'] .null r
    | 't' :: r => keyword? ['r', 'u', 'e'] (.bool true) r
    | 'f' :: r => keyword? ['a', 'l', 's', 'e'] (.bool false) r
    | r => do
      let (n, r) ← numeral? r
      let v ← n.value?
      some (v, r)

def items? : (fuel : Nat) → (depth : Nat) → List Char → Option (List Json × List Char)
  | 0, _, _ => none
  | fuel + 1, depth, s => do
    let (v, r) ← value? fuel depth s
    match skipBlanks r with
    | ',' :: r =>
      let (rest, r) ← items? fuel depth r
      some (v :: rest, r)
    | ']' :: r => some ([v], r)
    | _ => none

def fields? :
    (fuel : Nat) → (depth : Nat) → List Char → Option (List (String × Json) × List Char)
  | 0, _, _ => none
  | fuel + 1, depth, s => do
    match skipBlanks s with
    | '"' :: r =>
      let (name, r) ← text? (r.length + 1) r
      match skipBlanks r with
      | ':' :: r =>
        let (v, r) ← value? fuel depth r
        let field := (String.ofList name, v)
        match skipBlanks r with
        | ',' :: r =>
          let (rest, r) ← fields? fuel depth r
          some (field :: rest, r)
        | '\x7d' :: r => some ([field], r)
        | _ => none
      | _ => none
    | _ => none

end

/-- The levels of arrays and objects that a text may have. -/
def maxDepth : Nat := 127

def parse? (s : String) : Option Json := do
  let cs := s.toList
  let (v, rest) ← value? (2 * cs.length + 2) maxDepth cs
  if skipBlanks rest = [] then some v else none

theorem skipBlanks_cons {c : Char} (h : isBlank c = false) (r : List Char) :
    skipBlanks (c :: r) = c :: r := by
  rw [skipBlanks, List.dropWhile_cons, if_neg (by simp [h])]

/-! ## Values that are refused -/

section Refused

variable {fuel depth : Nat} {s t cs : List Char}

theorem value_bracket_zero (fuel : Nat) (r : List Char) :
    value? (fuel + 1) 0 ('[' :: r) = none := by
  rw [value?, skipBlanks_cons (by decide)]
  rfl

theorem items_of_none (h : value? fuel depth s = none) : items? (fuel + 1) depth s = none := by
  rw [items?, h]
  rfl

theorem fields_of_none (ht : text? (s.length + 1) s = some (cs, ':' :: t))
    (h : value? fuel depth t = none) : fields? (fuel + 1) depth ('"' :: s) = none := by
  rw [fields?, skipBlanks_cons (by decide)]
  simp [ht, skipBlanks_cons (show isBlank ':' = false by decide), h]

end Refused

end Arbor.Json
