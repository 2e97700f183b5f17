/-! # Powers of two and ten -/

namespace Arbor

abbrev twoPow (k : Nat) : Nat := Nat.pow 2 k

abbrev tenPow (k : Nat) : Nat := Nat.pow 10 k

end Arbor
