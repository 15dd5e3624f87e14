import WrapperGen.Roster

namespace WrapperGen.Roster

variable {α : Type} {name : α → String}

/-- The value of a name among those from `low` on and before `high`, which come in ascending order
of their names. Half of them are left out at each step. -/
def searchBetween (name : α → String) (values : Array α) (n : String) (low high : Nat)
    (bound : high ≤ values.size) : Option α :=
  if wide : low < high then
    let middle := low + (high - low) / 2
    let a := values[middle]
    if name a = n then some a
    else if name a < n then searchBetween name values n (middle + 1) high bound
    else searchBetween name values n low middle (by omega)
  else none
termination_by high - low

/-- The value of a name, looked for by halving. -/
def search? (r : Roster name) (n : String) : Option α :=
  searchBetween name r.toList.toArray n 0 r.toList.toArray.size (Nat.le_refl _)

end WrapperGen.Roster
