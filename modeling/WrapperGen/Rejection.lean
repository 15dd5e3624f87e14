import WrapperGen.Symbol

namespace WrapperGen

/-- What stands where a state container is wanted. -/
inductive NoContainer where
  | function
  | unresolved (type : TypeRef)
  | other (qualifiedName : String)
  | manyArguments (qualifiedName : String) (count : Nat)
  deriving DecidableEq

def NoContainer.display : NoContainer → String
  | .function => "a function"
  | .unresolved type => "unresolved type " ++ type.display
  | .other qualifiedName => qualifiedName
  | .manyArguments qualifiedName count =>
    qualifiedName ++ " with " ++ toString count ++ " type arguments"

/-- Why a marked declaration gets no entry. -/
inductive Rejection where
  | invalidMarkerTarget (symbol : String) (kind : Kind)
  | unresolvableSymbol (symbol : String)
  | multipleStateMarkers (symbol : String) (properties : List String)
  | invalidStateShape (symbol property : String) (found : NoContainer)
  | missingStateTypeArgument (symbol property : String)
  deriving DecidableEq

/-- What a rejection says. -/
structure Report where
  rule : String
  symbol : String
  details : List String
  deriving DecidableEq

namespace Rejection

/-- The name under which the declaration is rejected. -/
def symbol : Rejection → String
  | .invalidMarkerTarget symbol _ => symbol
  | .unresolvableSymbol symbol => symbol
  | .multipleStateMarkers symbol _ => symbol
  | .invalidStateShape symbol _ _ => symbol
  | .missingStateTypeArgument symbol _ => symbol

/-- The name of the rule that is broken. -/
def rule : Rejection → String
  | .invalidMarkerTarget .. => "InvalidMarkerTarget"
  | .unresolvableSymbol .. => "UnresolvableSymbol"
  | .multipleStateMarkers .. => "MultipleStateMarkers"
  | .invalidStateShape .. => "InvalidStateShape"
  | .missingStateTypeArgument .. => "MissingStateTypeArgument"

/-- What is said of the declaration besides. -/
def details : Rejection → List String
  | .invalidMarkerTarget _ kind => [kind.display]
  | .unresolvableSymbol _ => []
  | .multipleStateMarkers _ properties => properties
  | .invalidStateShape _ property found => [property, found.display]
  | .missingStateTypeArgument _ property => [property]

def report (r : Rejection) : Report := ⟨r.rule, r.symbol, r.details⟩

def message : Rejection → String
  | .invalidMarkerTarget symbol kind =>
    "'" ++ symbol ++ "': the view-model marker can only target classes, found a " ++ kind.display
  | .unresolvableSymbol symbol =>
    "'" ++ symbol ++ "': cannot resolve the qualified name of the view-model"
  | .multipleStateMarkers symbol properties =>
    "'" ++ symbol ++ "': multiple state properties (" ++ ", ".intercalate properties ++
      "); annotate exactly one"
  | .invalidStateShape symbol property found =>
    "'" ++ symbol ++ "': state property '" ++ property ++ "' must be a StateFlow<T>, found " ++
      found.display
  | .missingStateTypeArgument symbol property =>
    "'" ++ symbol ++ "': state property '" ++ property ++
      "' must be generic (StateFlow<T>) with a resolvable T"

end Rejection

end WrapperGen
