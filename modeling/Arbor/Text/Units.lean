/-! # Sixteen-bit units

The code units that a text takes when every character is written in units of
sixteen bits: one below U+10000 and a pair of surrogates from there on.
-/

namespace Arbor.Text

def unitsOfChar (c : Char) : List UInt32 :=
  if c.val < 0x10000 then [c.val]
  else
    let offset : UInt32 := c.val - 0x10000
    [0xd800 + offset / 0x400, 0xdc00 + offset % 0x400]

/-- The units of a text, first to last. -/
def units (s : String) : List UInt32 := s.toList.flatMap unitsOfChar

end Arbor.Text
