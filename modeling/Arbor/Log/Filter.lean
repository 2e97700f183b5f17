import Arbor.Log.Basic
import Arbor.Text.Blank
import Arbor.Text.Integer

/-! # Log filters

A filter is a list of directives, separated by commas. A directive sets how much is
let through of the topics whose name begins with its target; `target`, `[span]` and
`=level` are its parts, and a level may stand alone. The most specific directive
decides about a record, and of equally specific ones the last.
-/

namespace Arbor.Log

structure Directive where
  /-- The rank of the last level that is let through. -/
  limit : Nat
  /-- What the name of a topic has to begin with. -/
  target : Option (List Char)
  /-- The span that a record has to lie in. -/
  span : Option (List Char)
  /-- Fields that a record has to have, each with the value that is asked for. -/
  fields : List (List Char × Option (List Char))
  deriving DecidableEq, Repr

namespace Directive

/-- The rank that a text names: a level in any case of letters, `off` or a number. -/
def limit? (s : List Char) : Option Nat :=
  match Text.natural? (if s.head? = some '+' then s.tail else s) with
  | some n => if n ≤ Level.trace.rank then some n else none
  | none =>
    match String.ofList (s.map Char.toLower) with
    | "off" => some 0
    | "error" => some Level.error.rank
    | "warn" => some Level.warn.rank
    | "info" => some Level.info.rank
    | "debug" => some Level.debug.rank
    | "trace" => some Level.trace.rank
    | _ => none

def unlimited : Nat := Level.trace.rank

def limitAfter? : List Char → Option Nat
  | [] => some unlimited
  | s => limit? s

def cut (s : List Char) (first last : Nat) : List Char := (s.take last).drop first

def field (s : List Char) : List Char × Option (List Char) :=
  (s.takeWhile (· ≠ '='),
    match s.dropWhile (· ≠ '=') with
    | [] => none
    | _ :: value => some (value.takeWhile (· ≠ '=')))

/-- What follows a closed bracket at a place: nothing, or a limit. -/
def afterSpan? (whole trimmed : List Char) (d : Directive) (place : Nat) : Option Directive :=
  match trimmed.drop place with
  | [] => some d
  | '=' :: _ => (limitAfter? (whole.drop (place + 1))).map fun limit => { d with limit }
  | _ => none

def inSpan? (whole trimmed : List Char) (target : Option (List Char)) (place : Nat) :
    Option Directive :=
  let name := (trimmed.drop place).takeWhile fun c => c ≠ ']' && c ≠ '\x7b'
  let stop := place + name.length
  let span := cut whole place stop
  match trimmed.drop stop with
  | ']' :: _ => afterSpan? whole trimmed ⟨unlimited, target, some span, []⟩ (stop + 1)
  | '\x7b' :: rest =>
    let inner := rest.takeWhile (· ≠ '\x7d')
    let close := stop + 1 + inner.length
    if inner.isEmpty || (trimmed.drop close).take 2 ≠ ['\x7d', ']'] then none
    else
      afterSpan? whole trimmed
        ⟨unlimited, target, if span.isEmpty then none else some span,
          [field (cut whole (stop + 1) close)]⟩ (close + 2)
  | _ => none

/-- Reads a directive. Places are counted in the text without the blanks around it. -/
def parse? (whole : List Char) : Option Directive :=
  let trimmed := Text.trim whole
  match trimmed with
  | [] => none
  | '[' :: _ => inSpan? whole trimmed none 1
  | c :: _ =>
    if !(Text.isWordChar c || c = '-' || c = ':' || c = '_') then none
    else
      let stop := (trimmed.takeWhile fun c => c ≠ '=' && c ≠ '[').length
      let target := cut whole 0 stop
      match trimmed.drop stop with
      | [] =>
        match limit? whole with
        | some limit => some ⟨limit, none, none, []⟩
        | none => some ⟨unlimited, some whole, none, []⟩
      | '[' :: _ => inSpan? whole trimmed (some target) (stop + 1)
      | _ => (limitAfter? (whole.drop (stop + 1))).map fun limit => ⟨limit, some target, none, []⟩

/-- Whether a directive speaks of a record. Records lie in no span, and their only field is
their message. -/
def concerns (d : Directive) (r : Record) : Bool :=
  d.span.isNone && d.fields.all (fun f => f.1 = "message".toList && f.2.isNone) &&
    match d.target with
    | some t => t.isPrefixOf r.topic.name.toList
    | none => true

/-- How specific a directive is: the length of its target counts first, then its fields. -/
def weight (d : Directive) : Nat × Nat :=
  ((d.target.map fun t => t.length + 1).getD 0, d.fields.length)

/-- Whether a directive comes before another that stands further left. -/
def overrules (d e : Directive) : Bool :=
  e.weight.1 < d.weight.1 || e.weight.1 = d.weight.1 && e.weight.2 ≤ d.weight.2

end Directive

abbrev Filter := List Directive

namespace Filter

/-- Reads a filter; empty directives are passed over. -/
def parse? (s : String) : Option Filter :=
  ((s.toList.splitOn ',').filter fun d => !d.isEmpty).mapM Directive.parse?

/-- Everything of importance, and all that helps to find faults of the program itself. -/
def standard : Filter :=
  [⟨Level.info.rank, none, none, []⟩,
    ⟨Level.debug.rank, some Topic.program.name.toList, none, []⟩]

def deciding? (f : Filter) (r : Record) : Option Directive :=
  (f.filter (·.concerns r)).foldl (fun best d =>
    match best with
    | some e => if d.overrules e then some d else some e
    | none => some d) none

def allows (f : Filter) (r : Record) : Bool :=
  match f.deciding? r with
  | some d => r.level.rank ≤ d.limit
  | none => false

end Filter

end Arbor.Log
