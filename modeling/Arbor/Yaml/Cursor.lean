/-! # Places in a text

A cursor is what is left of a text together with where it begins: how many
characters come before it, on which line and in which column. The length of the whole
text bounds every walk over the rest.
-/

namespace Arbor.Yaml

/-- Whether a character may occur in a YAML text at all. -/
def isAllowed (c : Char) : Bool :=
  let n := c.toNat
  n == 0x09 || n == 0x0a || n == 0x0d || (0x20 ≤ n && n ≤ 0x7e) || n == 0x85 ||
    (0xa0 ≤ n && n ≤ 0xfffd) || 0x10000 ≤ n

def isBlank (c : Char) : Bool := c == ' ' || c == '\t'

def isBreak (c : Char) : Bool :=
  c == '\n' || c == '\r' || c == '\u0085' || c == '\u2028' || c == '\u2029'

def isWordChar (c : Char) : Bool := c.isAlphanum || c == '-' || c == '_'

/-- The rest of a text and the place where it begins. -/
structure Cursor where
  rest : List Char
  index : Nat
  line : Nat
  column : Nat
  /-- More steps than a walk over the text can take. -/
  bound : Nat

namespace Cursor

/-- The beginning of a text; a byte order mark there is passed over. -/
def ofText (s : String) : Cursor :=
  let rest := match s.toList with
    | '\ufeff' :: r => r
    | r => r
  ⟨rest, 0, 0, 0, s.length + 1⟩

def peek? (c : Cursor) : Option Char := c.rest.head?

def peekAt? (c : Cursor) (n : Nat) : Option Char := (c.rest.drop n).head?

def isAt (c : Cursor) (x : Char) : Bool := c.peek? == some x

/-- Whether the place `n` ahead is a blank, a line's end or the end of the text. -/
def gapAt (c : Cursor) (n : Nat) : Bool :=
  match c.peekAt? n with
  | none => true
  | some x => isBlank x || isBreak x

def atLineEnd (c : Cursor) : Bool :=
  match c.peek? with
  | none => true
  | some x => isBreak x

def atBlank (c : Cursor) : Bool := c.peek?.any isBlank

def atBreak (c : Cursor) : Bool := c.peek?.any isBreak

def skip (c : Cursor) (n : Nat) : Cursor :=
  { c with rest := c.rest.drop n, index := c.index + n, column := c.column + n }

/-- The longest run of characters of one kind on the current line, and the place
after it. -/
def span (c : Cursor) (p : Char → Bool) : List Char × Cursor :=
  let run := c.rest.takeWhile p
  let n := run.length
  (run, { c with rest := c.rest.drop n, index := c.index + n, column := c.column + n })

def skipWhile (c : Cursor) (p : Char → Bool) : Cursor := (c.span p).2

def skipToLineEnd (c : Cursor) : Cursor := c.skipWhile fun x => !isBreak x

/-- Passes over a line break, which reads as a newline unless it is one of the
two separators that stand for themselves. -/
def takeBreak (c : Cursor) : List Char × Cursor :=
  match c.rest with
  | '\r' :: '\n' :: r =>
    (['\n'], { c with rest := r, index := c.index + 2, line := c.line + 1, column := 0 })
  | x :: r =>
    if isBreak x then
      ([if x == '\u2028' || x == '\u2029' then x else '\n'],
        { c with rest := r, index := c.index + 1, line := c.line + 1, column := 0 })
    else ([], c)
  | [] => ([], c)

/-- Whether a line that separates documents begins here. -/
def atDocumentMark (c : Cursor) : Bool :=
  c.column == 0 && c.gapAt 3 &&
    (['-', '-', '-'].isPrefixOf c.rest || ['.', '.', '.'].isPrefixOf c.rest)

end Cursor

end Arbor.Yaml
