import Arbor.Yaml.ScalarText
import Arbor.Yaml.Token

/-! # Tokens of a YAML text

The text is read once from front to back. A scalar may turn out to be the key of
a mapping only when a colon follows it; until then its place among the tokens is
remembered, and the tokens that open the mapping are put in there. Where the text
is at fault, the tokens that can no longer change are kept.
-/

namespace Arbor.Yaml

/-- A token that may be the key of a mapping: where it stands among the tokens
and in the text, and whether it has to be one. -/
structure PendingKey where
  place : Nat
  index : Nat
  line : Nat
  column : Nat
  required : Bool

structure Lexer where
  cursor : Cursor
  /-- The tokens so far, the last one first. -/
  tokens : List Token
  /-- The number of tokens. -/
  count : Nat
  /-- The column of the current block, or -1 outside all blocks. -/
  indent : Int
  /-- The columns of the blocks around it. -/
  outer : List Int
  keyAllowed : Bool
  /-- The pending key of every open bracket, innermost first, and of the block
  around them. -/
  pending : List (Option PendingKey)

namespace Lexer

def ofText (s : String) : Lexer := ⟨.ofText s, [], 0, -1, [], true, [none]⟩

/-- Whether a bracket is open. -/
def inFlow (l : Lexer) : Bool := 1 < l.pending.length

def push (l : Lexer) (t : Token) : Lexer := { l with tokens := t :: l.tokens, count := l.count + 1 }

/-- Inserts a token among those that were read, behind the first `place` of them. -/
def insertAt (l : Lexer) (place : Nat) (t : Token) : Lexer :=
  let later := l.count - place
  { l with tokens := l.tokens.take later ++ t :: l.tokens.drop later, count := l.count + 1 }

def skip (l : Lexer) (n : Nat) : Lexer := { l with cursor := l.cursor.skip n }

/-- Whether a pending key can no longer be followed by its colon: that must be
on the same line and within 1024 characters. -/
def isStale (l : Lexer) (k : PendingKey) : Bool :=
  k.line < l.cursor.line || k.index + 1024 < l.cursor.index

/-- Gives up stale keys; one that had to be a key is a fault. -/
def dropStale (l : Lexer) : Option Lexer := do
  let pending ← l.pending.mapM fun
    | some k => if l.isStale k then if k.required then none else some none else some (some k)
    | none => some none
  some { l with pending }

/-- Gives up the innermost pending key; one that had to be a key is a fault. -/
def dropKey (l : Lexer) : Option Lexer :=
  match l.pending with
  | some k :: rest => if k.required then none else some { l with pending := none :: rest }
  | _ => some l

/-- Remembers that the next token may be a key. -/
def saveKey (l : Lexer) : Option Lexer :=
  if l.keyAllowed then do
    let l ← l.dropKey
    let k : PendingKey :=
      { place := l.count, index := l.cursor.index, line := l.cursor.line
        column := l.cursor.column, required := !l.inFlow && l.indent == l.cursor.column }
    some { l with pending := some k :: l.pending.tail }
  else some l

/-- Opens a block at a column unless it is open; its token goes to a place among
the tokens. -/
def openBlock (l : Lexer) (column place : Nat) (t : Token) : Lexer :=
  if !l.inFlow && l.indent < column then
    { l.insertAt place t with outer := l.indent :: l.outer, indent := column }
  else l

def closeBlocks (l : Lexer) (column : Int) : Lexer :=
  if l.inFlow then l
  else
    let columns := l.indent :: l.outer
    let ended := columns.takeWhile (column < ·)
    match columns.drop ended.length with
    | indent :: outer =>
      ended.foldl (fun l _ => l.push .blockEnd) { l with indent, outer }
    | [] => l

/-- Passes over blanks, comments and line ends. A tab may only stand where no key
can begin. -/
def skipGaps : (fuel : Nat) → Lexer → Lexer
  | 0, l => l
  | fuel + 1, l =>
    let tabs := l.inFlow || !l.keyAllowed
    let c := l.cursor.skipWhile fun x => x == ' ' || (tabs && x == '\t')
    let c := if c.isAt '#' then c.skipToLineEnd else c
    if c.atBreak then
      skipGaps fuel { l with cursor := c.takeBreak.2, keyAllowed := !l.inFlow || l.keyAllowed }
    else { l with cursor := c }

/-! ## Directives and names -/

/-- Reads a number of at most nine digits. -/
def number? (c : Cursor) : Option (Nat × Cursor) :=
  let (ds, c) := c.span Char.isDigit
  if ds = [] || 9 < ds.length then none
  else some (ds.foldl (fun n d => n * 10 + (d.toNat - 48)) 0, c)

/-- Reads the bytes that percent signs and pairs of digits stand for. -/
def percentBytes : (fuel : Nat) → List UInt8 → Cursor → List UInt8 × Cursor
  | 0, bytes, c => (bytes.reverse, c)
  | fuel + 1, bytes, c =>
    match c.rest with
    | '%' :: a :: b :: _ =>
      match Text.hexValue? a, Text.hexValue? b with
      | some a, some b => percentBytes fuel ((a * 16 + b).toUInt8 :: bytes) (c.skip 3)
      | _, _ => (bytes.reverse, c)
    | _ => (bytes.reverse, c)

def percentChar? (c : Cursor) : Option (Char × Cursor) := do
  let (first, _) := percentBytes 1 [] c
  let b ← first.head?
  let width := if b < 0x80 then 1 else if b < 0xe0 then 2 else if b < 0xf0 then 3 else 4
  let (bytes, c) := percentBytes width [] c
  match (String.fromUTF8? ⟨bytes.toArray⟩).map String.toList with
  | some [x] => some (x, c)
  | _ => none

def isTagChar (wide : Bool) (x : Char) : Bool :=
  isWordChar x || [';', '/', '?', ':', '@', '&', '=', '+', '$', '.', '!', '~', '*', '\'', '(',
    ')'].contains x || (wide && [',', '[', ']'].contains x)

def tagText (wide : Bool) : (fuel : Nat) → List Char → Cursor → Option (List Char × Cursor)
  | 0, _, _ => none
  | fuel + 1, text, c =>
    match c.peek? with
    | some '%' => do
      let (x, c) ← percentChar? c
      tagText wide fuel (x :: text) c
    | some x =>
      if isTagChar wide x then tagText wide fuel (x :: text) (c.skip 1)
      else some (text.reverse, c)
    | none => some (text.reverse, c)

def tagText? (wide : Bool) (c : Cursor) : Option (List Char × Cursor) := do
  let (text, c) ← tagText wide c.bound [] c
  if text = [] then none else some (text, c)

/-- Reads a handle: a name between exclamation marks, of which the second may be
missing. -/
def handle? (c : Cursor) : Option (List Char × Cursor) :=
  if c.isAt '!' then
    let (name, c) := (c.skip 1).span isWordChar
    if c.isAt '!' then some ('!' :: name ++ ['!'], c.skip 1) else some ('!' :: name, c)
  else none

def directive? (c : Cursor) : Option (Token × Cursor) := do
  let (name, c) := c.span isWordChar
  if !c.gapAt 0 then none
  else if name = ['Y', 'A', 'M', 'L'] then
    let (major, c) ← number? (c.skipWhile isBlank)
    if !c.isAt '.' then none
    else
      let (minor, c) ← number? (c.skip 1)
      some (.version major minor, c)
  else if name = ['T', 'A', 'G'] then
    let (handle, c) ← handle? (c.skipWhile isBlank)
    if handle.getLast? ≠ some '!' || !c.atBlank then none
    else
      let (expansion, c) ← tagText? true (c.skipWhile isBlank)
      if c.gapAt 0 then
        some (.tagDirective (String.ofList handle) (String.ofList expansion), c)
      else none
  else none

/-- Reads a directive and the rest of its line, which may hold a comment. -/
def directiveLine? (c : Cursor) : Option (Token × Cursor) := do
  let (t, c) ← directive? c
  let c := c.skipWhile isBlank
  let c := if c.isAt '#' then c.skipToLineEnd else c
  if c.atLineEnd then some (t, c.takeBreak.2) else none

def name? (c : Cursor) : Option (String × Cursor) :=
  let (name, c) := c.span isWordChar
  if name ≠ [] && (c.gapAt 0 || c.peek?.any ['?', ':', ',', ']', '\x7d', '%', '@', '\x60'].contains)
  then some (String.ofList name, c)
  else none

/-- Reads a tag: in angle brackets, behind a handle, or behind one exclamation
mark. -/
def tag? (flow : Bool) (c : Cursor) : Option (Token × Cursor) := do
  let (handle, suffix, c) ←
    if c.peekAt? 1 == some '<' then do
      let (suffix, c) ← tagText? true (c.skip 2)
      if c.isAt '>' then some ([], suffix, c.skip 1) else none
    else do
      let (handle, after) ← handle? c
      if 1 < handle.length && handle.getLast? = some '!' then
        let (suffix, c) ← tagText? false after
        some (handle, suffix, c)
      else
        let (suffix, c) ← tagText false after.bound handle.tail.reverse after
        if suffix = [] then some ([], ['!'], c) else some (['!'], suffix, c)
  if c.gapAt 0 || (flow && c.isAt ',') then
    some (.tag (String.ofList handle) (String.ofList suffix), c)
  else none

/-! ## Reading one token -/

/-- Ends all blocks, as the end of a document does. -/
def leaveDocument (l : Lexer) : Option Lexer := do
  let l ← (l.closeBlocks (-1)).dropKey
  some { l with keyAllowed := false }

def streamEnd (l : Lexer) : Option Lexer := do
  let l ← l.leaveDocument
  some (l.push .streamEnd)

def documentMark (l : Lexer) : Option Lexer := do
  let t := if l.cursor.isAt '-' then Token.documentStart else .documentEnd
  let l ← l.leaveDocument
  some ((l.skip 3).push t)

def directive (l : Lexer) : Option Lexer := do
  let l ← l.leaveDocument
  let (t, cursor) ← directiveLine? (l.cursor.skip 1)
  some { l.push t with cursor }

def openBracket (l : Lexer) (t : Token) : Option Lexer := do
  let l ← l.saveKey
  some ({ l with pending := none :: l.pending, keyAllowed := true }.skip 1 |>.push t)

def closeBracket (l : Lexer) (t : Token) : Option Lexer := do
  let l ← l.dropKey
  let pending := if l.inFlow then l.pending.tail else l.pending
  some ({ l with pending, keyAllowed := false }.skip 1 |>.push t)

def comma (l : Lexer) : Option Lexer := do
  let l ← l.dropKey
  some ({ l with keyAllowed := true }.skip 1 |>.push .comma)

/-- The dash of a block sequence. -/
def entry (l : Lexer) : Option Lexer := do
  if !l.inFlow && !l.keyAllowed then none
  else
    let l ← (l.openBlock l.cursor.column l.count .blockSequence).dropKey
    some ({ l with keyAllowed := true }.skip 1 |>.push .entry)

/-- The mark of an explicit key. -/
def key (l : Lexer) : Option Lexer := do
  if !l.inFlow && !l.keyAllowed then none
  else
    let l ← (l.openBlock l.cursor.column l.count .blockMapping).dropKey
    some ({ l with keyAllowed := !l.inFlow }.skip 1 |>.push .key)

/-- The colon between a key and its value. -/
def value (l : Lexer) : Option Lexer := do
  match l.pending with
  | some k :: rest =>
    let l := (l.insertAt k.place .key).openBlock k.column k.place .blockMapping
    some ({ l with pending := none :: rest, keyAllowed := false }.skip 1 |>.push .value)
  | _ =>
    if !l.inFlow && !l.keyAllowed then none
    else
      let l := l.openBlock l.cursor.column l.count .blockMapping
      some ({ l with keyAllowed := !l.inFlow }.skip 1 |>.push .value)

def keyLike (l : Lexer) (scan : Cursor → Option (Token × Cursor)) : Option Lexer := do
  let l ← l.saveKey
  let (t, cursor) ← scan l.cursor
  some { l.push t with cursor, keyAllowed := false }

def quoted (l : Lexer) (mark : Char) : Option Lexer :=
  l.keyLike fun c => do
    let (text, c) ← quotedScalar mark c.bound [] (c.skip 1)
    some (.scalar (String.ofList text) .quoted, c)

def block (l : Lexer) (literal : Bool) : Option Lexer := do
  let l ← l.dropKey
  let (text, cursor) ← blockScalar? literal l.indent (l.cursor.skip 1)
  some { l.push (.scalar (String.ofList text) (if literal then .literal else .folded)) with
    cursor, keyAllowed := true }

def plain (l : Lexer) : Option Lexer := do
  let l ← l.saveKey
  let (text, multiline, cursor) ←
    plainScalar l.inFlow (l.indent + 1).toNat l.cursor.bound [] .empty l.cursor
  some { l.push (.scalar (String.ofList text) .plain) with cursor, keyAllowed := multiline }

/-- The characters that a plain scalar does not begin with. -/
def indicators : List Char :=
  ['-', '?', ':', ',', '[', ']', '\x7b', '\x7d', '#', '&', '*', '!', '|', '>', '\'', '"', '%', '@',
    '\x60']

def startsPlain (l : Lexer) (x : Char) : Bool :=
  let c := l.cursor
  (!c.gapAt 0 && !indicators.contains x) ||
    (x == '-' && !(c.peekAt? 1).any isBlank) ||
    (!l.inFlow && (x == '?' || x == ':') && !c.gapAt 1)

/-- Reads the next token, with the ends of blocks before it. -/
def next (l : Lexer) : Option Lexer := do
  let l := skipGaps l.cursor.bound l
  let l ← l.dropStale
  let l := l.closeBlocks l.cursor.column
  let c := l.cursor
  match c.peek? with
  | none => l.streamEnd
  | some x =>
    if c.column = 0 && x == '%' then l.directive
    else if c.atDocumentMark then l.documentMark
    else if x == '[' then l.openBracket .flowSequence
    else if x == '\x7b' then l.openBracket .flowMapping
    else if x == ']' then l.closeBracket .flowSequenceEnd
    else if x == '\x7d' then l.closeBracket .flowMappingEnd
    else if x == ',' then l.comma
    else if x == '-' && c.gapAt 1 then l.entry
    else if x == '?' && (l.inFlow || c.gapAt 1) then l.key
    else if x == ':' && (l.inFlow || c.gapAt 1) then l.value
    else if x == '*' then l.keyLike fun c => (name? (c.skip 1)).map fun (n, c) => (.reference n, c)
    else if x == '&' then l.keyLike fun c => (name? (c.skip 1)).map fun (n, c) => (.anchor n, c)
    else if x == '!' then l.keyLike (tag? l.inFlow)
    else if x == '|' && !l.inFlow then l.block true
    else if x == '>' && !l.inFlow then l.block false
    else if x == '\'' || x == '"' then l.quoted x
    else if l.startsPlain x then l.plain
    else none

/-- The tokens in front of every key that is still pending. -/
def settled (l : Lexer) : List Token :=
  let l := l.dropStale.getD l
  let place := l.pending.foldl (fun n k => min n ((k.map PendingKey.place).getD n)) l.count
  (l.tokens.drop (l.count - place)).reverse

def run : (fuel : Nat) → Lexer → List Token
  | 0, l => l.settled
  | fuel + 1, l =>
    match l.next with
    | none => l.settled
    | some l => if l.tokens.head? == some .streamEnd then l.tokens.reverse else run fuel l

end Lexer

/-- The tokens of a text; without the end of the stream at the end where the text
is at fault. -/
def tokens (s : String) : List Token :=
  if s.toList.all isAllowed then Lexer.run (s.length + 2) (.ofText s) else []

end Arbor.Yaml
