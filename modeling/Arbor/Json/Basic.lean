/-! # JSON values

Values with the fields of an object in the order in which they were written,
repetitions included, and with whole numbers apart from the others.
-/

namespace Arbor

inductive Json where
  | null
  | bool (b : Bool)
  | int (n : Int)
  | real (x : Float)
  | text (s : String)
  | list (items : List Json)
  | object (fields : List (String × Json))
  deriving Inhabited

namespace Json

/-- A number that a decoder may take as a float. -/
def toFloat? : Json → Option Float
  | int n => some (Float.ofInt n)
  | real x => some x
  | _ => none

/-- The values written for a name, in order. -/
def valuesOf (name : String) (fields : List (String × Json)) : List Json :=
  (fields.filter (·.1 == name)).map (·.2)

end Json

end Arbor
