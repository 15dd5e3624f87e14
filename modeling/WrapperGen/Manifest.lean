import WrapperGen.Roster

namespace WrapperGen

/-- The property that shows the state of a view-model, with the simple name of its type. -/
structure StateEntry where
  property : String
  typeName : String
  deriving DecidableEq

structure ParamEntry where
  label : String
  typeName : String
  deriving DecidableEq

/-- A function that a view-model offers to its user. -/
structure ActionEntry where
  function : String
  params : List ParamEntry
  deriving DecidableEq

/-- A view-model for which a wrapper is wanted. -/
structure Entry where
  className : String
  simpleName : String
  state : Option StateEntry
  actions : List ActionEntry
  deriving DecidableEq

/-- The entries of all view-models, by the qualified names of their classes. -/
abbrev Manifest := Roster Entry.className

/-- The version of the form in which manifests are written. -/
def manifestVersion : Nat := 1

end WrapperGen
