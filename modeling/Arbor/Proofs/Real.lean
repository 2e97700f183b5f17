import Mathlib
import Arbor.Proofs.Exact

/-! # Real arithmetic

The real numbers as scalars with the functions of geometry, where this namespace is open.
-/

namespace Arbor.Exact

noncomputable scoped instance : Geometric ℝ where
  __ := Scalar.exact ℝ
  sqrt := Real.sqrt
  sin := Real.sin
  cos := Real.cos
  pi := Real.pi

end Arbor.Exact
