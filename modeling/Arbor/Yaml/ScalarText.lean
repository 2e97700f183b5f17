import Arbor.Text.Hex
import Arbor.Yaml.Cursor

/-! # Texts of scalars

How the characters of a scalar are read off the page: line breaks inside a plain
or quoted text are folded, quotes and escapes are undone, and the lines of a
block lose their indentation.
-/

namespace Arbor.Yaml

/-- Blanks and line breaks between two words of a text. -/
structure Gap where
  /-- The blanks before the first line break. -/
  blanks : List Char
  firstBreak : List Char
  laterBreaks : List Char
  /-- Whether the gap goes over the end of a line. -/
  multiline : Bool

namespace Gap

/-- A gap that begins in the middle of a line. -/
def empty : Gap := ⟨[], [], [], false⟩

/-- A gap that begins with a line break which leaves no trace. -/
def joined : Gap := ⟨[], [], [], true⟩

/-- What is read for a gap: one newline is a space, and of several the first is
dropped. -/
def fold (g : Gap) : List Char :=
  if g.multiline then
    if g.firstBreak = ['\n'] then if g.laterBreaks = [] then [' '] else g.laterBreaks
    else g.firstBreak ++ g.laterBreaks
  else g.blanks

/-- Reads a gap. With a least column, a tab before it on a new line is refused. -/
def scan (minColumn : Option Nat) : (fuel : Nat) → Gap → Cursor → Option (Gap × Cursor)
  | 0, _, _ => none
  | fuel + 1, g, c =>
    if c.atBlank then
      if g.multiline && c.isAt '\t' && minColumn.any (c.column < ·) then none
      else if g.multiline then scan minColumn fuel g (c.skip 1)
      else scan minColumn fuel { g with blanks := g.blanks ++ c.rest.take 1 } (c.skip 1)
    else if c.atBreak then
      let (text, c) := c.takeBreak
      if g.multiline then scan minColumn fuel { g with laterBreaks := g.laterBreaks ++ text } c
      else scan minColumn fuel { g with blanks := [], firstBreak := text, multiline := true } c
    else some (g, c)

end Gap

/-! ## Plain scalars -/

def isFlowMark (x : Char) : Bool :=
  x == ',' || x == '[' || x == ']' || x == '\x7b' || x == '\x7d'

/-- Reads a word of a plain scalar, backwards onto the text before it. A colon
before a bracket or the like is refused inside brackets. -/
def plainWord (flow : Bool) : (fuel : Nat) → List Char → Cursor → Option (List Char × Cursor)
  | 0, _, _ => none
  | fuel + 1, text, c =>
    match c.peek? with
    | none => some (text, c)
    | some x =>
      if isBlank x || isBreak x then some (text, c)
      else if flow && x == ':' && (c.peekAt? 1).any (fun y => isFlowMark y || y == '?') then none
      else if x == ':' && c.gapAt 1 then some (text, c)
      else if flow && isFlowMark x then some (text, c)
      else plainWord flow fuel (x :: text) (c.skip 1)

/-- Reads the words of a plain scalar that starts at or behind `minColumn`. The
result tells whether its last gap went over the end of a line. -/
def plainScalar (flow : Bool) (minColumn : Nat) :
    (fuel : Nat) → (text : List Char) → Gap → Cursor → Option (List Char × Bool × Cursor)
  | 0, _, _, _ => none
  | fuel + 1, text, gap, c => do
    let done := some (text.reverse, gap.multiline, c)
    if c.atDocumentMark || c.isAt '#' then done
    else
      let (word, after) ← plainWord flow c.bound [] c
      if word = [] then done
      else
        let text := word ++ gap.fold.reverse ++ text
        if !(after.atBlank || after.atBreak) then some (text.reverse, false, after)
        else
          let (gap, after) ← Gap.scan (some minColumn) after.bound .empty after
          if !flow && after.column < minColumn then some (text.reverse, gap.multiline, after)
          else plainScalar flow minColumn fuel text gap after

/-! ## Quoted scalars -/

def simpleEscape? : Char → Option Char
  | '0' => some '\x00'
  | 'a' => some '\x07'
  | 'b' => some '\x08'
  | 't' | '\t' => some '\t'
  | 'n' => some '\n'
  | 'v' => some '\x0b'
  | 'f' => some '\x0c'
  | 'r' => some '\r'
  | 'e' => some '\x1b'
  | ' ' => some ' '
  | '"' => some '"'
  | '/' => some '/'
  | '\\' => some '\\'
  | 'N' => some '\u0085'
  | '_' => some '\u00a0'
  | 'L' => some '\u2028'
  | 'P' => some '\u2029'
  | _ => none

/-- How many hexadecimal digits follow an escape letter. -/
def hexEscape? : Char → Option Nat
  | 'x' => some 2
  | 'u' => some 4
  | 'U' => some 8
  | _ => none

/-- The character that hexadecimal digits stand for; surrogates are none. -/
def hexChar? (digits : List Char) : Option Char := do
  let values ← digits.mapM Text.hexValue?
  let n := values.foldl (fun n v => n * 16 + v) 0
  if h : n.isValidChar then some (Char.ofNatAux n h) else none

def escape? (c : Cursor) : Option (Char × Cursor) := do
  let x ← c.peek?
  match hexEscape? x with
  | none => (simpleEscape? x).map fun y => (y, c.skip 1)
  | some n =>
    let digits := (c.rest.drop 1).take n
    if digits.length = n then (hexChar? digits).map fun y => (y, c.skip (n + 1)) else none

/-- Reads a word of a quoted scalar, backwards onto the text before it, and tells
whether it ends in an escaped line break. -/
def quotedWord (mark : Char) :
    (fuel : Nat) → List Char → Cursor → Option (List Char × Bool × Cursor)
  | 0, _, _ => none
  | fuel + 1, text, c =>
    match c.peek? with
    | none => some (text, false, c)
    | some x =>
      if isBlank x || isBreak x then some (text, false, c)
      else if x == mark then
        if mark == '\'' && c.peekAt? 1 == some '\'' then
          quotedWord mark fuel ('\'' :: text) (c.skip 2)
        else some (text, false, c)
      else if mark == '"' && x == '\\' then
        if (c.peekAt? 1).any isBreak then some (text, true, (c.skip 1).takeBreak.2)
        else do
          let (y, c) ← escape? (c.skip 1)
          quotedWord mark fuel (y :: text) c
      else quotedWord mark fuel (x :: text) (c.skip 1)

def quotedScalar (mark : Char) :
    (fuel : Nat) → (text : List Char) → Cursor → Option (List Char × Cursor)
  | 0, _, _ => none
  | fuel + 1, text, c => do
    if c.atDocumentMark || c.peek?.isNone then none
    else
      let (text, joined, c) ← quotedWord mark c.bound text c
      if c.isAt mark then some (text.reverse, c.skip 1)
      else
        let start := if joined then Gap.joined else Gap.empty
        let (gap, c) ← Gap.scan none c.bound start c
        quotedScalar mark fuel (gap.fold.reverse ++ text) c

/-! ## Block scalars -/

/-- What a block does with the line breaks at its end. -/
inductive Chomping where
  | strip
  | clip
  | keep
  deriving DecidableEq, Repr

def chomping? (c : Cursor) : Option (Chomping × Cursor) :=
  match c.peek? with
  | some '+' => some (.keep, c.skip 1)
  | some '-' => some (.strip, c.skip 1)
  | _ => none

/-- Reads an indentation digit; zero is refused. -/
def increment? (c : Cursor) : Option (Nat × Cursor) :=
  match c.peek? with
  | some x =>
    if x.isDigit then if x == '0' then none else some (x.toNat - 48, c.skip 1)
    else some (0, c)
  | none => some (0, c)

/-- Reads the marks behind a block's indicator, in either order. -/
def blockHeader? (c : Cursor) : Option (Chomping × Nat × Cursor) :=
  match chomping? c with
  | some (chomp, c) => do
    let (n, c) ← increment? c
    some (chomp, n, c)
  | none => do
    let (n, c) ← increment? c
    if n = 0 then some (.clip, 0, c)
    else
      let (chomp, c) := (chomping? c).getD (.clip, c)
      some (chomp, n, c)

/-- Reads indentation and empty lines. Without a known indentation the deepest
column is looked for; a tab in its place is refused. -/
def blockBreaks (indent : Nat) :
    (fuel : Nat) → (deepest : Nat) → (breaks : List Char) → Cursor →
      Option (Nat × List Char × Cursor)
  | 0, _, _, _ => none
  | fuel + 1, deepest, breaks, c =>
    let inside (c : Cursor) := indent = 0 || c.column < indent
    let run := (c.rest.takeWhile (· == ' ')).length
    let c := c.skip (if indent = 0 then run else min run (indent - c.column))
    let deepest := max deepest c.column
    if inside c && c.isAt '\t' then none
    else if c.atBreak then
      let (text, c) := c.takeBreak
      blockBreaks indent fuel deepest (breaks ++ text) c
    else some (deepest, breaks, c)

/-- Reads the lines of a block at a known indentation, backwards onto the text before
them. `held` is the break of the line before, which folding may turn into a space. -/
def blockLines (literal : Bool) (indent : Nat) :
    (fuel : Nat) → (text held breaks : List Char) → (wasBlank : Bool) → Cursor →
      Option (List Char × List Char × List Char × Cursor)
  | 0, _, _, _, _, _ => none
  | fuel + 1, text, held, breaks, wasBlank, c => do
    if c.column = indent && c.peek?.isSome then
      let blank := c.atBlank
      let joint :=
        if !literal && held = ['\n'] && !wasBlank && !blank then
          if breaks = [] then [' '] else []
        else held
      let (line, c) := c.span fun x => !isBreak x
      let (held, c) := c.takeBreak
      let text := line.reverseAux (breaks.reverseAux (joint.reverseAux text))
      let (_, breaks, c) ← blockBreaks indent c.bound 0 [] c
      blockLines literal indent fuel text held breaks blank c
    else some (text, held, breaks, c)

/-- Reads a block scalar behind its indicator; `parent` is the indentation of the
block around it. -/
def blockScalar? (literal : Bool) (parent : Int) (c : Cursor) : Option (List Char × Cursor) := do
  let (chomp, increment, c) ← blockHeader? c
  let c := c.skipWhile isBlank
  let c := if c.isAt '#' then c.skipToLineEnd else c
  if !c.atLineEnd then none
  else
    let (_, c) := c.takeBreak
    let fixed := if increment = 0 then 0 else parent.toNat + increment
    let (deepest, breaks, c) ← blockBreaks fixed c.bound 0 [] c
    let indent := if fixed = 0 then max (max deepest (parent + 1).toNat) 1 else fixed
    let (text, held, breaks, c) ←
      blockLines literal indent c.bound [] [] breaks false c
    let tail := match chomp with
      | .strip => []
      | .clip => held
      | .keep => held ++ breaks
    some (text.reverse ++ tail, c)

end Arbor.Yaml
