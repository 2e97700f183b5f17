import Arbor.Grammar.Basic

/-! # Rules by symbol

The rules of a grammar grouped by the symbol that they rewrite, each group in the
order of the grammar. A group is never empty.
-/

namespace Arbor

/-- The rules of one symbol. -/
structure Alternatives where
  first : Rule
  rest : List Rule
  deriving Repr

namespace Alternatives

def toList (a : Alternatives) : List Rule := a.first :: a.rest

def push (a : Alternatives) (r : Rule) : Alternatives := { a with rest := a.rest ++ [r] }

end Alternatives

/-- Groups of rules by symbol, in the order in which the symbols first occur. -/
structure RuleIndex where
  groups : List (Char × Alternatives)
  deriving Repr

namespace RuleIndex

/-- Adds a rule to the group of its symbol, or starts the group. -/
def insert (r : Rule) : List (Char × Alternatives) → List (Char × Alternatives)
  | [] => [(r.input, ⟨r, []⟩)]
  | (c, a) :: rest =>
    if c = r.input then (c, a.push r) :: rest else (c, a) :: insert r rest

def ofRules (rules : List Rule) : RuleIndex := ⟨rules.foldl (fun gs r => insert r gs) []⟩

/-- The rules of a symbol; a symbol without any is copied when it is rewritten. -/
def candidates? (index : RuleIndex) (c : Char) : Option Alternatives := index.groups.lookup c

def rulesFor (index : RuleIndex) (c : Char) : List Rule :=
  match index.candidates? c with
  | some a => a.toList
  | none => []

def symbolCount (index : RuleIndex) : Nat := index.groups.length

end RuleIndex

def Grammar.index (g : Grammar) : RuleIndex := RuleIndex.ofRules g.rules

end Arbor
