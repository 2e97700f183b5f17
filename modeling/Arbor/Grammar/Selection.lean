import Arbor.Grammar.Index
import Arbor.Random.Source

/-! # Weighted choice

One draw places a point on the line on which the weights lie end to end; the
alternative whose stretch holds the point is chosen. Without any weight the first
alternative is chosen and nothing is drawn.
-/

namespace Arbor

namespace Selection

variable {α β ρ : Type} [Scalar α]

/-- The sum of all weights, from the first on. -/
@[specialize] def total (weight : β → α) (items : List β) : α :=
  items.foldl (fun sum b => sum + weight b) (-0)

/-- The first item with which the running sum of weights exceeds a point. -/
@[specialize] def firstAbove? (weight : β → α) (point : α) : (sum : α) → List β → Option β
  | _, [] => none
  | sum, b :: rest =>
    let sum := sum + weight b
    if Scalar.lt point sum then some b else firstAbove? weight point sum rest

/-- Chooses among a first item and the rest, and hands back the source that is
left. The first item stands in where no running sum exceeds the point. -/
@[specialize] def choose [RandomSource ρ α] (weight : β → α) (first : β) (rest : List β)
    (source : ρ) : β × ρ :=
  let sum := total weight (first :: rest)
  if Scalar.le sum 0 then (first, source)
  else
    let (point, source) := RandomSource.drawBetween 0 sum source
    ((firstAbove? weight point 0 (first :: rest)).getD first, source)

end Selection

namespace Alternatives

def totalWeight (a : Alternatives) : Float := Selection.total Rule.weight a.toList

@[specialize] def choose {ρ : Type} [RandomSource ρ Float] (a : Alternatives) (source : ρ) :
    Rule × ρ :=
  Selection.choose Rule.weight a.first a.rest source

end Alternatives

end Arbor
