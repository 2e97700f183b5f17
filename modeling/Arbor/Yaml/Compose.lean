import Arbor.Yaml.Lexer
import Arbor.Yaml.Node

/-! # Documents of a token stream

Reads the first document of a stream of tokens. Running out of tokens or meeting
one that does not fit breaks the document off at that place.
-/

namespace Arbor.Yaml

/-- Tokens that are left, with what is known from those before them. -/
structure Composer where
  tokens : List Token
  /-- Prefixes of tags by handle. -/
  handles : List (String × String)
  /-- Numbers of names, each name once. -/
  names : List (String × Nat)
  definitions : List Definition
  /-- How many nodes were given a name. -/
  turns : Nat
  broken : Bool

namespace Composer

/-- Handles that need no directive. -/
def standardHandles : List (String × String) := [("!", "!"), ("!!", "tag:yaml.org,2002:")]

def ofTokens (ts : List Token) : Composer := ⟨ts, standardHandles, [], [], 0, false⟩

def peek? (s : Composer) : Option Token := s.tokens.head?

def isAt (s : Composer) (ts : List Token) : Bool := s.peek?.any ts.contains

def skip (s : Composer) : Composer := { s with tokens := s.tokens.tail }

/-- Breaks the stream off. -/
def stop (s : Composer) : Composer := { s with tokens := [], broken := true }

/-- Gives a name to the node that begins here; the result is its number and its
turn. -/
def define (s : Composer) (name : String) : Nat × Nat × Composer :=
  let number := s.names.length
  let names := (name, number) :: s.names.filter (·.1 != name)
  (number, s.turns, { s with names, turns := s.turns + 1 })

def keep (s : Composer) (mark : Option (Nat × Nat)) (n : Node) : Composer :=
  match mark with
  | some (number, turn) => { s with definitions := ⟨number, turn, n⟩ :: s.definitions }
  | none => s

/-- The full text of a tag; an undefined handle is a fault. -/
def expandTag? (s : Composer) (handle suffix : String) : Option String :=
  if handle.isEmpty then some suffix else (s.handles.lookup handle).map (· ++ suffix)

/-- The anchor and the tag in front of a node, in either order. -/
def properties (s : Composer) : Option String × Option (String × String) × Composer :=
  match s.tokens with
  | .anchor a :: .tag h t :: r => (some a, some (h, t), { s with tokens := r })
  | .tag h t :: .anchor a :: r => (some a, some (h, t), { s with tokens := r })
  | .anchor a :: r => (some a, none, { s with tokens := r })
  | .tag h t :: r => (none, some (h, t), { s with tokens := r })
  | _ => (none, none, s)

/-- Where a node stands decides which tokens mean that it is absent. -/
inductive Place where
  | blockEntry
  | indentlessEntry
  | blockKey
  | blockValue
  | flowEntry
  | flowKey
  | flowValue
  | pairKey
  deriving DecidableEq

/-- The tokens that stand for an absent node. -/
def Place.followers : Place → List Token
  | .blockEntry => [.entry, .blockEnd]
  | .indentlessEntry => [.entry, .key, .value, .blockEnd]
  | .blockKey | .blockValue => [.key, .value, .blockEnd]
  | .flowEntry => []
  | .flowKey => [.value, .comma, .flowMappingEnd]
  | .flowValue => [.comma, .flowMappingEnd, .flowSequenceEnd]
  | .pairKey => [.value, .comma, .flowSequenceEnd]

def Place.isBlock : Place → Bool
  | .blockEntry | .indentlessEntry | .blockKey | .blockValue => true
  | _ => false

/-- Whether a sequence at a place may do without indentation. -/
def Place.isIndentless : Place → Bool
  | .blockKey | .blockValue => true
  | _ => false

mutual

def node : (fuel : Nat) → Place → Composer → Node × Composer
  | 0, _, s => (.broken, s.stop)
  | fuel + 1, place, s =>
    match s.peek? with
    | some (.reference name) =>
      match s.names.lookup name with
      | some number => (.reference number, s.skip)
      | none => (.broken, s.stop)
    | _ =>
      let (anchor, tag, s) := s.properties
      match tag.mapM fun (h, t) => s.expandTag? h t with
      | none => (.broken, s.stop)
      | some tag =>
        let tag := tag.filter (· ≠ "")
        let (mark, begun) := match anchor with
          | some name => let (number, turn, s) := s.define name; (some (number, turn), s)
          | none => (none, s)
        let finish (r : Node × Composer) : Node × Composer := (r.1, r.2.keep mark r.1)
        match s.peek? with
        | some (.scalar text style) =>
          finish (.scalar text style (tag.filter (· ≠ "!")), begun.skip)
        | some .flowSequence =>
          let (items, complete, s) := flowItems fuel true [] begun.skip
          finish (.sequence tag items complete, s)
        | some .flowMapping =>
          let (entries, complete, s) := flowEntries fuel true [] begun.skip
          finish (.mapping tag entries complete, s)
        | t =>
          if place.isIndentless && t == some .entry then
            let (items, complete, s) := blockItems fuel false [] begun
            finish (.sequence tag items complete, s)
          else if place.isBlock && t == some .blockSequence then
            let (items, complete, s) := blockItems fuel true [] begun.skip
            finish (.sequence tag items complete, s)
          else if place.isBlock && t == some .blockMapping then
            let (entries, complete, s) := blockEntries fuel [] begun.skip
            finish (.mapping tag entries complete, s)
          else if t.isSome && (anchor.isSome || tag.isSome) then finish (.absent tag, begun)
          else (.broken, s.stop)

def optional : (fuel : Nat) → Place → Composer → Node × Composer
  | 0, _, s => (.broken, s.stop)
  | fuel + 1, place, s =>
    if s.isAt place.followers then (.absent none, s) else node fuel place s

/-- Reads the items of a block sequence; an indented one has an end of its own. -/
def blockItems :
    (fuel : Nat) → (indented : Bool) → List Node → Composer → List Node × Bool × Composer
  | 0, _, items, s => (items.reverse, false, s.stop)
  | fuel + 1, indented, items, s =>
    match s.peek? with
    | some .entry =>
      let (n, s) := optional fuel (if indented then .blockEntry else .indentlessEntry) s.skip
      if s.broken then ((n :: items).reverse, false, s)
      else blockItems fuel indented (n :: items) s
    | some .blockEnd => (items.reverse, true, if indented then s.skip else s)
    | some _ => if indented then (items.reverse, false, s.stop) else (items.reverse, true, s)
    | none => (items.reverse, false, s.stop)

def blockEntries :
    (fuel : Nat) → List (Node × Node) → Composer → List (Node × Node) × Bool × Composer
  | 0, entries, s => (entries.reverse, false, s.stop)
  | fuel + 1, entries, s =>
    match s.peek? with
    | some .key =>
      let (k, s) := optional fuel .blockKey s.skip
      if s.broken then (((k, .broken) :: entries).reverse, false, s)
      else
        match s.peek? with
        | some .value =>
          let (v, s) := optional fuel .blockValue s.skip
          if s.broken then (((k, v) :: entries).reverse, false, s)
          else blockEntries fuel ((k, v) :: entries) s
        | some _ => blockEntries fuel ((k, .absent none) :: entries) s
        | none => (((k, .broken) :: entries).reverse, false, s.stop)
    | some .blockEnd => (entries.reverse, true, s.skip)
    | _ => (entries.reverse, false, s.stop)

/-- Reads the items between brackets, in which a single entry of a mapping may
stand without braces. -/
def flowItems :
    (fuel : Nat) → (first : Bool) → List Node → Composer → List Node × Bool × Composer
  | 0, _, items, s => (items.reverse, false, s.stop)
  | fuel + 1, first, items, s =>
    match s.peek? with
    | some .flowSequenceEnd => (items.reverse, true, s.skip)
    | some t =>
      if !first && t != .comma then (items.reverse, false, s.stop)
      else
        let s := if first then s else s.skip
        match s.peek? with
        | some .flowSequenceEnd => (items.reverse, true, s.skip)
        | some .key =>
          let (n, s) := flowPair fuel s.skip
          if s.broken then ((n :: items).reverse, false, s)
          else flowItems fuel false (n :: items) s
        | _ =>
          let (n, s) := node fuel .flowEntry s
          if s.broken then ((n :: items).reverse, false, s)
          else flowItems fuel false (n :: items) s
    | none => (items.reverse, false, s.stop)

/-- Reads a single entry between brackets. A missing key also swallows the colon
after it. -/
def flowPair : (fuel : Nat) → Composer → Node × Composer
  | 0, s => (.broken, s.stop)
  | fuel + 1, s =>
    let (k, s) :=
      if s.isAt Place.pairKey.followers then (Node.absent none, s.skip)
      else node fuel .pairKey s
    if s.broken then (.mapping none [(k, .broken)] false, s)
    else
      match s.peek? with
      | some .value =>
        let (v, s) := optional fuel .flowValue s.skip
        (.mapping none [(k, v)] (!s.broken), s)
      | some _ => (.mapping none [(k, .absent none)] true, s)
      | none => (.mapping none [(k, .broken)] false, s.stop)

def flowEntries :
    (fuel : Nat) → (first : Bool) → List (Node × Node) → Composer →
      List (Node × Node) × Bool × Composer
  | 0, _, entries, s => (entries.reverse, false, s.stop)
  | fuel + 1, first, entries, s =>
    match s.peek? with
    | some .flowMappingEnd => (entries.reverse, true, s.skip)
    | some t =>
      if !first && t != .comma then (entries.reverse, false, s.stop)
      else
        let s := if first then s else s.skip
        match s.peek? with
        | some .flowMappingEnd => (entries.reverse, true, s.skip)
        | some .key =>
          let (k, s) := optional fuel .flowKey s.skip
          if s.broken then (((k, .broken) :: entries).reverse, false, s)
          else
            match s.peek? with
            | some .value =>
              let (v, s) := optional fuel .flowValue s.skip
              if s.broken then (((k, v) :: entries).reverse, false, s)
              else flowEntries fuel false ((k, v) :: entries) s
            | some _ => flowEntries fuel false ((k, .absent none) :: entries) s
            | none => (((k, .broken) :: entries).reverse, false, s.stop)
        | _ =>
          let (k, s) := node fuel .flowEntry s
          if s.broken then (((k, .broken) :: entries).reverse, false, s)
          else flowEntries fuel false ((k, .absent none) :: entries) s
    | none => (entries.reverse, false, s.stop)

end

/-- Reads the directives in front of a document. A version other than 1.1 and 1.2
and a repeated directive are faults. -/
def directives : (fuel : Nat) → (versioned : Bool) → List (String × String) → Composer →
    Option Composer
  | 0, _, _, _ => none
  | fuel + 1, versioned, own, s =>
    match s.peek? with
    | some (.version major minor) =>
      if versioned || major ≠ 1 || (minor ≠ 1 && minor ≠ 2) then none
      else directives fuel true own s.skip
    | some (.tagDirective handle expansion) =>
      if (own.lookup handle).isSome then none
      else directives fuel versioned ((handle, expansion) :: own) s.skip
    | _ => some { s with handles := own ++ standardHandles }

def atStreamEnd (s : Composer) : Bool :=
  match s.tokens.dropWhile (· == .documentEnd) with
  | [.streamEnd] => true
  | _ => false

def documentFollowers : List Token := [.documentStart, .documentEnd, .streamEnd]

/-- Whether a document has no root although it was announced. -/
def lacksRoot (s : Composer) : Bool :=
  match s.peek? with
  | some (.version ..) | some (.tagDirective ..) => true
  | _ => s.isAt documentFollowers

def root (explicit : Bool) (s : Composer) : Document :=
  let (n, s) :=
    if explicit && s.lacksRoot then (Node.absent none, s)
    else node (4 * s.tokens.length + 4) .blockEntry s
  ⟨n, s.definitions, !s.broken && s.atStreamEnd⟩

def document (s : Composer) : Document :=
  match s.peek? with
  | some .documentStart => root true s.skip
  | some (.version ..) | some (.tagDirective ..) =>
    match directives (s.tokens.length + 1) false [] s with
    | some s => if s.isAt [.documentStart] then root true s.skip else ⟨.broken, [], false⟩
    | none => ⟨.broken, [], false⟩
  | _ => root false s

end Composer

def Document.ofText (s : String) : Document := (Composer.ofTokens (tokens s)).document

end Arbor.Yaml
