/-! # Blank characters -/

namespace Arbor.Text

/-- The characters that count as white space: tabulator to carriage return, the space, and the
spaces and line ends outside ASCII. -/
def isBlank (c : Char) : Bool :=
  let n := c.toNat
  (9 ≤ n && n ≤ 13) || n = 0x20 || n = 0x85 || n = 0xa0 || n = 0x1680 ||
    (0x2000 ≤ n && n ≤ 0x200a) || n = 0x2028 || n = 0x2029 || n = 0x202f || n = 0x205f ||
    n = 0x3000

def trimStart (s : List Char) : List Char := s.dropWhile isBlank

def trimEnd (s : List Char) : List Char := (s.reverse.dropWhile isBlank).reverse

def trim (s : List Char) : List Char := trimEnd (trimStart s)

/-- A letter or a digit; outside ASCII everything counts as a letter. -/
def isWordChar (c : Char) : Bool := c.isAlphanum || 128 ≤ c.toNat

end Arbor.Text
