import Arbor.Error

/-! # Grammars

A grammar is a start word and weighted rules, each of which rewrites one symbol.
Several rules may rewrite the same symbol. Drafts are grammars as somebody wrote
them down; checking a draft reports its first fault.
-/

namespace Arbor

abbrev Word := List Char

structure Rule where
  input : Char
  output : Word
  /-- How often the rule is chosen, relative to the others of its symbol. -/
  weight : Float
  deriving Repr, Inhabited

def Rule.weighs (r : Rule) : Bool := r.weight.isFinite && !(r.weight < 0)

/-- A start word with at least one symbol and at least one rule, all of them with
weights that can be drawn from. -/
structure Grammar where
  start : Word
  rules : List Rule
  start_ne_nil : start ≠ []
  rules_ne_nil : rules ≠ []
  weighs : ∀ r ∈ rules, r.weighs = true

namespace Grammar

/-- The first rule whose weight cannot be drawn from, and its index. -/
def badWeight? : (index : Nat) → List Rule → Option (Nat × Rule)
  | _, [] => none
  | i, r :: rs => if r.weighs then badWeight? (i + 1) rs else some (i, r)

theorem weighs_of_badWeight?_eq_none {i : Nat} {rs : List Rule} (h : badWeight? i rs = none) :
    ∀ r ∈ rs, r.weighs = true := by
  induction rs generalizing i with
  | nil => simp
  | cons r rs ih =>
    simp only [badWeight?] at h
    split at h
    · next hr => simpa [hr] using ih h
    · contradiction

/-- A grammar of a start word and rules, or the first fault: an empty start word,
no rules, or the first bad weight. -/
def ofRules (start : Word) (rules : List Rule) : Except ConfigError Grammar :=
  if hs : start = [] then .error .emptyStart
  else if hr : rules = [] then .error .emptyRules
  else match hw : badWeight? 0 rules with
    | some (i, r) => .error (.weight i r.input r.weight)
    | none => .ok ⟨start, rules, hs, hr, weighs_of_badWeight?_eq_none hw⟩

/-- A rule as written, with a text where one symbol should be. -/
structure RuleDraft where
  input : String
  output : String
  weight : Float
  deriving Repr, Inhabited

structure Draft where
  start : String
  rules : List RuleDraft
  deriving Repr, Inhabited

def RuleDraft.check (index : Nat) (d : RuleDraft) : Except ConfigError Rule :=
  match d.input.toList with
  | [c] => .ok ⟨c, d.output.toList, d.weight⟩
  | _ => .error (.ruleInput index d.input)

def checkRules : (index : Nat) → List RuleDraft → Except ConfigError (List Rule)
  | _, [] => .ok []
  | i, d :: ds => do
    let r ← d.check i
    let rs ← checkRules (i + 1) ds
    return r :: rs

/-- The grammar of a draft. Inputs of rules are looked at before anything else. -/
def Draft.check (d : Draft) : Except ConfigError Grammar := do
  ofRules d.start.toList (← checkRules 0 d.rules)

def draftOfRule (r : Rule) : RuleDraft :=
  ⟨String.singleton r.input, String.ofList r.output, r.weight⟩

def toDraft (g : Grammar) : Draft :=
  ⟨String.ofList g.start, g.rules.map draftOfRule⟩

end Grammar

end Arbor
