import Arbor.Environment.Basic
import Arbor.Text.Blank

/-! # Environment files

A file of assignments that supplies variables. A value may be quoted, a quoted value
may go on over several lines, and outside single quotes a dollar sign brings in the
value of another variable. Reading stops at the first line that is at fault; what was
supplied before it stays.
-/

namespace Arbor.Environment

namespace File

/-! ## Lines -/

/-- Where a place of a line lies, as far as quotes tell. -/
inductive Place where
  | plain
  | blank
  | escaped
  | weak
  | weakEscaped
  | strong
  | strongEscaped
  deriving DecidableEq, Repr

/-- What a quote or a backslash opens outside of quotes. -/
def opens : Char → Place
  | '\\' => .escaped
  | '"' => .weak
  | '\'' => .strong
  | _ => .plain

/-- The place after a character; there is none where a comment starts. -/
def Place.next? (p : Place) (c : Char) : Option Place :=
  match p with
  | plain => some (if Text.isBlank c && c ≠ '\n' && c ≠ '\r' then blank else opens c)
  | blank => if c = '#' then none else some (opens c)
  | escaped => some plain
  | weak => some (if c = '\\' then weakEscaped else if c = '"' then plain else weak)
  | weakEscaped => some weak
  | strong => some (if c = '\\' then strongEscaped else if c = '\'' then plain else strong)
  | strongEscaped => some strong

/-- The part of a line before its comment, and the place at its end if there is no comment. -/
def scanLine (p : Place) : List Char → List Char × Option Place
  | [] => ([], some p)
  | c :: rest =>
    match p.next? c with
    | none => ([], none)
    | some p =>
      let (kept, last) := scanLine p rest
      (c :: kept, last)

def withoutLineEnd (s : List Char) : List Char :=
  match s.reverse with
  | '\n' :: '\r' :: r => r.reverse
  | '\n' :: r => r.reverse
  | _ => s

/-- Puts lines together where quotes stay open, `kept` being what has gone before. The end of
the text inside of quotes is a fault. -/
def logicalLines (kept : List Char) (p : Place) : List (List Char) → List (Option (List Char))
  | [] => if p = .plain then [] else [none]
  | line :: rest =>
    if (Text.trimStart (kept ++ line)).head? = some '#' then some [] :: logicalLines [] .plain rest
    else
      match scanLine p line with
      | (part, none) => some (kept ++ part) :: logicalLines [] .plain rest
      | (_, some .plain) => some (withoutLineEnd (kept ++ line)) :: logicalLines [] .plain rest
      | (_, some p) => logicalLines (kept ++ line) p rest

def physicalLines (s : List Char) : List (List Char) :=
  match (s.splitOn '\n').reverse with
  | [] => []
  | last :: before =>
    (before.reverse.map (· ++ ['\n'])) ++ if last.isEmpty then [] else [last]

/-! ## Values -/

/-- Where the reading of a value is. The name of a variable is kept backwards. -/
inductive Mode where
  /-- Outside or inside of double quotes. -/
  | text (weak : Bool)
  /-- Inside of single quotes. -/
  | strong
  /-- After a backslash. -/
  | escaped (weak : Bool)
  /-- In a name after a dollar sign. -/
  | name (weak : Bool) (name : List Char)
  /-- In a name in braces. -/
  | braced (weak : Bool) (name : List Char)
  /-- After the value. -/
  | ended
  deriving Repr

def unescape? : Char → Option Char
  | 'n' => some '\n'
  | c => if c ∈ ['\\', '\'', '"', '$', ' '] then some c else none

/-- Reads a value, `written` being what it has so far, backwards. -/
def readValue? (lookup : String → String) (m : Mode) (written : List Char) :
    List Char → Option (List Char)
  | [] =>
    match m with
    | .text false | .escaped false | .ended => some written.reverse
    | .name false n => some (written.reverse ++ (lookup (String.ofList n.reverse)).toList)
    | _ => none
  | c :: rest =>
    let valueOf (n : List Char) : List Char := (lookup (String.ofList n.reverse)).toList
    match m with
    | .ended =>
      if c = ' ' || c = '\t' then readValue? lookup .ended written rest
      else if c = '#' then some written.reverse
      else none
    | .escaped weak => do readValue? lookup (.text weak) ((← unescape? c) :: written) rest
    | .strong =>
      if c = '\'' then readValue? lookup (.text false) written rest
      else readValue? lookup .strong (c :: written) rest
    | .name weak n =>
      if Text.isWordChar c then readValue? lookup (.name weak (c :: n)) written rest
      else if c = '\x7b' && n.isEmpty then readValue? lookup (.braced weak []) written rest
      else
        let written := (valueOf n).reverseAux written
        if c = '$' then readValue? lookup (.name weak []) written rest
        else readValue? lookup (.text weak) (c :: written) rest
    | .braced weak n =>
      if c = '\x7d' then readValue? lookup (.text weak) ((valueOf n).reverseAux written) rest
      else readValue? lookup (.braced weak (c :: n)) written rest
    | .text weak =>
      if c = '$' then readValue? lookup (.name weak []) written rest
      else if c = '\\' then readValue? lookup (.escaped weak) written rest
      else if c = '"' then readValue? lookup (.text (!weak)) written rest
      else if weak then readValue? lookup (.text true) (c :: written) rest
      else if c = '\'' then readValue? lookup .strong written rest
      else if c = ' ' || c = '\t' then readValue? lookup .ended written rest
      else readValue? lookup (.text false) (c :: written) rest

/-! ## Assignments -/

def readName? (s : List Char) : Option (String × List Char) :=
  match s with
  | [] => none
  | c :: _ =>
    if c.isAlpha || c = '_' then
      let inName (c : Char) : Bool := c.isAlphanum || c = '_' || c = '.'
      some (String.ofList (s.takeWhile inName), Text.trimStart (s.dropWhile inName))
    else none

def readEquals? : List Char → Option (List Char)
  | '=' :: rest => some rest
  | _ => none

/-- Reads the left side of an assignment, which may be introduced by `export`. -/
def readTarget? (s : List Char) : Option (String × List Char) := do
  let (name, rest) ← readName? s
  match name, readEquals? rest with
  | _, some rest => return (name, rest)
  | "export", none =>
    let (name, rest) ← readName? rest
    return (name, ← readEquals? rest)
  | _, none => none

inductive Line where
  | nothing
  | assignment (name value : String)
  deriving Repr

def readLine? (lookup : String → String) (s : List Char) : Option Line :=
  match Text.trimStart (Text.trimEnd s) with
  | [] | '#' :: _ => some .nothing
  | s => do
    let (name, rest) ← readTarget? s
    match Text.trimStart rest with
    | [] | '#' :: _ => return .assignment name ""
    | rest =>
      let value ← readValue? lookup (.text false) [] rest
      return .assignment name (String.ofList value)

/-- Goes through the lines up to the first fault, `known` being the values that the file has
assigned so far. -/
def apply (env : Environment) (known : List (String × String)) :
    List (Option (List Char)) → Environment
  | [] | none :: _ => env
  | some line :: rest =>
    let lookup (name : String) : String :=
      (env.get? name).getD ((known.lookup name).getD "")
    match readLine? lookup line with
    | none => env
    | some .nothing => apply env known rest
    | some (.assignment name value) =>
      apply (env.supply name value) ((name, value) :: known) rest

end File

def load (env : Environment) (text : String) : Environment :=
  let chars := match text.toList with
    | '\ufeff' :: rest => rest
    | chars => chars
  File.apply env [] (File.logicalLines [] .plain (File.physicalLines chars))

end Arbor.Environment
