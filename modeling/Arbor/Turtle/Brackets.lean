import Arbor.Grammar.Basic
import Arbor.Turtle.Command

/-! # Brackets of a word

What the brackets of a word do to a turtle's stack can be told without walking.
-/

namespace Arbor.Turtle

/-- Saved states, and restores that found none, after a symbol. -/
def countBracket (saved : Nat × Nat) (c : Char) : Nat × Nat :=
  match Command.ofSymbol? c, saved with
  | some .push, (depth, unmatched) => (depth + 1, unmatched)
  | some .pop, (0, unmatched) => (0, unmatched + 1)
  | some .pop, (depth + 1, unmatched) => (depth, unmatched)
  | _, _ => saved

def unmatchedRestores (w : Word) : Nat := (w.foldl countBracket (0, 0)).2

end Arbor.Turtle
