import Arbor.Text.Hex

/-! # Colors

Twenty-four-bit colors and their written form, six hexadecimal digits behind a
hash sign.
-/

namespace Arbor

structure Color where
  r : UInt8
  g : UInt8
  b : UInt8
  deriving DecidableEq, Repr, Inhabited

namespace Color

/-- The color of the low twenty-four bits of a number. -/
def ofHex (hex : UInt32) : Color :=
  ⟨(hex >>> 16).toUInt8, (hex >>> 8).toUInt8, hex.toUInt8⟩

/-- The channels as one number, red highest. -/
def toHex (c : Color) : UInt32 :=
  c.r.toUInt32 <<< 16 ||| c.g.toUInt32 <<< 8 ||| c.b.toUInt32

def red : Color := ofHex 0xff0000
def green : Color := ofHex 0x00ff00
def yellow : Color := ofHex 0xffff00

def toString (c : Color) : String :=
  String.ofList ('#' :: Text.hexFixed 6 c.toHex.toNat)

/-- A hexadecimal numeral, which may have a plus sign in front. -/
def numeral? (s : List Char) : Option Nat :=
  let ds := match s with
    | '+' :: r => r
    | r => r
  if ds = [] then none
  else (ds.mapM Text.hexValue?).map fun vs => vs.foldl (fun n v => n * 16 + v) 0

/-- Reads a color: a hash sign, which may be missing, and a hexadecimal numeral
of six bytes. -/
def parse? (s : String) : Option Color :=
  let body := match s.toList with
    | '#' :: r => r
    | r => r
  if (String.ofList body).utf8ByteSize = 6 then
    (numeral? body).map fun n => ofHex n.toUInt32
  else none

end Color

end Arbor
