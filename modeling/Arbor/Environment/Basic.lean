/-! # Environments

Named values that a program is started with.
-/

namespace Arbor

/-- The variables that are set; of two with one name the first counts. -/
structure Environment where
  bindings : List (String × String)
  deriving Repr

namespace Environment

def get? (env : Environment) (name : String) : Option String := env.bindings.lookup name

/-- Sets a variable, unless it is set already. -/
def supply (env : Environment) (name value : String) : Environment :=
  match env.get? name with
  | some _ => env
  | none => ⟨(name, value) :: env.bindings⟩

theorem get?_supply_of_some {env : Environment} {name old : String} (value : String)
    (h : env.get? name = some old) : env.supply name value = env := by
  simp [supply, h]

theorem get?_supply_self {env : Environment} {name : String} (value : String)
    (h : env.get? name = none) : (env.supply name value).get? name = some value := by
  simp only [supply, h]
  simp [get?]

end Environment

end Arbor
