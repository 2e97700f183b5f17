import Arbor.Event.Basic

/-! # Summaries of event lists

How many events of each kind there are, and the box around every position that
they touch.
-/

namespace Arbor

/-- A box with sides along the axes. -/
structure Box (α : Type) where
  low : Vec3 α
  high : Vec3 α
  deriving DecidableEq, Repr

@[inline] def Box.join {α : Type} [Scalar α] (a b : Box α) : Box α :=
  ⟨a.low.min b.low, a.high.max b.high⟩

structure Summary (α : Type) where
  points : Nat
  arrows : Nat
  markers : Nat
  bounds : Option (Box α)
  deriving DecidableEq, Repr

namespace Summary

variable {α : Type}

def empty : Summary α := ⟨0, 0, 0, none⟩

def total (s : Summary α) : Nat := s.points + s.arrows + s.markers

section Scalar

variable [Scalar α]

@[inline] def boxOf (e : Event α) : Box α :=
  let (a, b) := e.extent
  ⟨a.min b, a.max b⟩

@[specialize] def add (s : Summary α) (e : Event α) : Summary α :=
  let bounds := match s.bounds with
    | some box => box.join (boxOf e)
    | none => boxOf e
  match e with
  | .point _ _ => { s with points := s.points + 1, bounds := some bounds }
  | .marker _ _ => { s with markers := s.markers + 1, bounds := some bounds }
  | .arrow _ _ _ _ => { s with arrows := s.arrows + 1, bounds := some bounds }

@[specialize] def ofEvents (es : List (Event α)) : Summary α := es.foldl add empty

def center? (s : Summary α) : Option (Vec3 α) :=
  s.bounds.map fun b => (b.low + b.high).scale 0.5

end Scalar

def diagonal [Geometric α] (s : Summary α) : α :=
  match s.bounds with
  | some b => (b.high - b.low).length
  | none => 0

end Summary

end Arbor
