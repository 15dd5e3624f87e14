import WrapperGen.TypeRef

namespace WrapperGen

/-- What is declared. -/
inductive Kind where
  | classType
  | interfaceType
  | objectType
  | enumType
  | function
  | property
  | typeAlias
  deriving DecidableEq

namespace Kind

def all : List Kind :=
  [.classType, .interfaceType, .objectType, .enumType, .function, .property, .typeAlias]

/-- The kinds of which a view-model may be. -/
def isClassLike : Kind → Bool
  | .classType | .interfaceType | .objectType | .enumType => true
  | .function | .property | .typeAlias => false

/-- How the kind is called in messages. -/
def display : Kind → String
  | .classType => "class"
  | .interfaceType => "interface"
  | .objectType => "object"
  | .enumType => "enum"
  | .function => "function"
  | .property => "property"
  | .typeAlias => "type alias"

end Kind

/-- A declared type, as it is shown outside of its table. -/
structure Symbol where
  id : String
  kind : Kind
  qualifiedName : Option String
  simpleName : String
  deriving DecidableEq

/-- The qualified name, or the simple one of a local declaration. -/
def Symbol.displayName (s : Symbol) : String := s.qualifiedName.getD s.simpleName

structure Param where
  name : Option String
  type : TypeRef
  deriving DecidableEq

/-- A property or a function. -/
inductive MemberForm where
  | property (type : TypeRef)
  | function (params : List Param)
  deriving DecidableEq

structure Member where
  name : String
  form : MemberForm
  deriving DecidableEq

namespace Member

/-- The types written in a member. -/
def types (m : Member) : List TypeRef :=
  match m.form with
  | .property type => [type]
  | .function params => params.map Param.type

/-- The number of parameters; a property has none to count. -/
def arity (m : Member) : Option Nat :=
  match m.form with
  | .property _ => none
  | .function params => some params.length

/-- Members of one shape hide each other. -/
def shape (m : Member) : String × Option Nat := (m.name, m.arity)

end Member

end WrapperGen
