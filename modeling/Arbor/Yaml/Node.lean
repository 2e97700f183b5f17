import Arbor.Yaml.Token

/-! # YAML nodes

The tree that a document describes. A text may break off because of a fault; what
was read before is kept, so that a reader of the tree meets the fault where the
text has it.
-/

namespace Arbor.Yaml

inductive Node where
  /-- A scalar; an absent value is an empty plain one. -/
  | scalar (text : String) (style : Style) (tag : Option String)
  /-- A sequence, and whether its end was reached. -/
  | sequence (tag : Option String) (items : List Node) (complete : Bool)
  /-- A mapping in the order of the text, and whether its end was reached. -/
  | mapping (tag : Option String) (entries : List (Node × Node)) (complete : Bool)
  /-- Another mention of the node that a number stands for. -/
  | reference (target : Nat)
  /-- The place where the text broke off. -/
  | broken
  deriving Inhabited

namespace Node

def absent (tag : Option String) : Node := scalar "" .plain tag

mutual

/-- The number of steps in which a node is read. -/
def steps : Node → Nat
  | scalar .. | reference _ => 1
  | sequence _ items _ => 2 + stepsOfList items
  | mapping _ entries _ => 2 + stepsOfEntries entries
  | broken => 0

def stepsOfList : List Node → Nat
  | [] => 0
  | n :: rest => n.steps + stepsOfList rest

def stepsOfEntries : List (Node × Node) → Nat
  | [] => 0
  | (k, v) :: rest => k.steps + v.steps + stepsOfEntries rest

end

end Node

/-- A node that was given a name, the number that aliases know it by, and its
turn among all named nodes. -/
structure Definition where
  number : Nat
  turn : Nat
  node : Node

/-- A document: its root, the named nodes, and whether it and the stream around
it are without fault. -/
structure Document where
  root : Node
  definitions : List Definition
  sound : Bool

/-- The node that an alias stands for: the last one begun under its number. -/
def Document.target? (d : Document) (number : Nat) : Option Node :=
  let known := d.definitions.filter (·.number = number)
  let last := known.foldl (fun n k => max n k.turn) 0
  (known.find? (·.turn = last)).map (·.node)

end Arbor.Yaml
