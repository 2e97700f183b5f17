import Arbor.Power
import Arbor.Yaml.Node
import Arbor.Yaml.Resolve

/-! # Values of nodes

What a node says once its plain words are given their meanings. Aliases are
followed; how deep nodes may be nested and how many aliases may be followed is
limited.
-/

namespace Arbor.Yaml

inductive Value where
  | null
  | bool (b : Bool)
  | int (n : Int)
  | real (x : Float)
  | text (s : String)
  | list (items : List Value)
  | map (entries : List (Value × Value))
  deriving Inhabited

def maxDepth : Nat := 128

/-- Reading a document: it is at hand, and the followed aliases are counted. The
only failure is that the text does not have the expected form. -/
abbrev Reader := ReaderT Document (StateT Nat Option)

namespace Reader

def fail {α : Type} : Reader α := fun _ _ => none

def ofOption {α : Type} (x : Option α) : Reader α := fun _ n => x.map (·, n)

end Reader

/-- Follows an alias. A hundred may be followed for every step of the document. -/
def Node.follow : Node → Reader Node
  | .reference target => do
    let d ← read
    modify (· + 1)
    if d.root.steps * 100 < (← get) then Reader.fail
    else Reader.ofOption (d.target? target)
  | n => return n

namespace Value

/-- The meaning of a word without a tag. Integers that take more than sixty-four
bits but not more than 128 are refused. -/
def ofWord? (s : String) : Option Value :=
  let cs := s.toList
  if s.isEmpty || isNull s then some null
  else if let some b := bool? s then some (bool b)
  else if let some n := unsigned? (twoPow 64 - 1) cs then some (int n)
  else if let some n := negative? (twoPow 63) cs then some (int n)
  else if (unsigned? (twoPow 128 - 1) cs).isSome || (negative? (twoPow 127) cs).isSome then none
  else if isZeroPadded cs then some (text s)
  else some (((float? cs).map real).getD (text s))

def ofIntWord? (s : String) : Option Value :=
  match ofWord? s with
  | some (int n) => some (int n)
  | _ => none

/-- The meaning of a scalar. Tags of the standard types pick a meaning, a tag of
the document's own is refused, and all others leave a text. -/
def ofScalar? (s : String) (style : Style) : Option String → Option Value
  | none => if style = .plain then ofWord? s else some (text s)
  | some tag =>
    if tag = "tag:yaml.org,2002:bool" then (bool? s).map bool
    else if tag = "tag:yaml.org,2002:int" then ofIntWord? s
    else if tag = "tag:yaml.org,2002:float" then (float? s.toList).map real
    else if tag = "tag:yaml.org,2002:null" then if isNull s then some null else none
    else if tag.startsWith "!" then none
    else some (text s)

/-- Whether a collection's tag is one of the document's own. -/
def hasOwnTag (tag : Option String) : Bool :=
  tag.any fun t => t.startsWith "!" && t ≠ "!"

end Value

mutual

/-- The value of a node; `depth` more levels of nesting are allowed, and `fuel`
bounds the steps. -/
def Node.value : (fuel : Nat) → (depth : Nat) → Node → Reader Value
  | 0, _, _ => Reader.fail
  | fuel + 1, depth, n => do
    match ← n.follow with
    | .scalar s style tag => Reader.ofOption (Value.ofScalar? s style tag)
    | .sequence tag items complete =>
      if Value.hasOwnTag tag || depth = 0 then Reader.fail
      else
        let vs ← Node.values fuel (depth - 1) items
        if complete then return .list vs else Reader.fail
    | .mapping tag entries complete =>
      if Value.hasOwnTag tag || depth = 0 then Reader.fail
      else
        let es ← Node.entryValues fuel (depth - 1) entries
        if complete then return .map es else Reader.fail
    | .reference _ | .broken => Reader.fail

def Node.values : (fuel : Nat) → (depth : Nat) → List Node → Reader (List Value)
  | 0, _, _ => Reader.fail
  | _ + 1, _, [] => return []
  | fuel + 1, depth, n :: rest => do
    let v ← n.value fuel depth
    return v :: (← Node.values fuel depth rest)

def Node.entryValues :
    (fuel : Nat) → (depth : Nat) → List (Node × Node) → Reader (List (Value × Value))
  | 0, _, _ => Reader.fail
  | _ + 1, _, [] => return []
  | fuel + 1, depth, (k, v) :: rest => do
    let key ← k.value fuel depth
    let value ← v.value fuel depth
    return (key, value) :: (← Node.entryValues fuel depth rest)

end

end Arbor.Yaml
