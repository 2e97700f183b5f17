/-! # Turtle commands

The five symbols that a turtle acts on; it passes over all others.
-/

namespace Arbor.Turtle

inductive Command where
  | advance
  | turnPositive
  | turnNegative
  | push
  | pop
  deriving DecidableEq, Repr

namespace Command

def ofSymbol? : Char → Option Command
  | 'F' => some advance
  | '+' => some turnPositive
  | '-' => some turnNegative
  | '[' => some push
  | ']' => some pop
  | _ => none

def symbol : Command → Char
  | advance => 'F'
  | turnPositive => '+'
  | turnNegative => '-'
  | push => '['
  | pop => ']'

theorem ofSymbol?_symbol (c : Command) : ofSymbol? c.symbol = some c := by
  cases c <;> rfl

theorem ofSymbol?_eq_some_iff {s : Char} {c : Command} : ofSymbol? s = some c ↔ s = c.symbol := by
  constructor
  · intro h
    simp only [ofSymbol?] at h
    split at h <;> cases h <;> rfl
  · rintro rfl
    exact ofSymbol?_symbol c

theorem ne_symbol_of_ofSymbol?_eq_none {s : Char} (h : ofSymbol? s = none) (c : Command) :
    s ≠ c.symbol := by
  rintro rfl
  cases (ofSymbol?_symbol c).symm.trans h

end Command

end Arbor.Turtle
