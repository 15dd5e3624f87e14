import WrapperGen.Table

namespace WrapperGen

/-- The type that a written name stands for. -/
structure ResolvedName where
  qualifiedName : String
  simpleName : String
  deriving DecidableEq

/-- A type whose written name stands for a known one, with its arguments as written. -/
structure ResolvedType where
  qualifiedName : String
  simpleName : String
  args : List TypeArg

/-- The types of the language and of its coroutines, which nobody has to declare. -/
def builtinTypes : List String :=
  ["kotlin.Any", "kotlin.Unit", "kotlin.Nothing", "kotlin.Boolean", "kotlin.Byte", "kotlin.Short",
    "kotlin.Int", "kotlin.Long", "kotlin.Float", "kotlin.Double", "kotlin.Char", "kotlin.String",
    "kotlin.Array", "kotlin.Pair", "kotlin.Triple", "kotlin.Function0", "kotlin.Function1",
    "kotlin.Function2", "kotlin.Function3", "kotlin.collections.List",
    "kotlin.collections.MutableList", "kotlin.collections.Set", "kotlin.collections.MutableSet",
    "kotlin.collections.Map", "kotlin.collections.MutableMap", "kotlinx.coroutines.flow.Flow",
    "kotlinx.coroutines.flow.SharedFlow", "kotlinx.coroutines.flow.MutableSharedFlow",
    "kotlinx.coroutines.flow.StateFlow", "kotlinx.coroutines.flow.MutableStateFlow"]

/-- The built-in type of a qualified or simple name. -/
def builtin? (name : String) : Option String :=
  builtinTypes.find? fun q => q == name || lastSegment q == name

namespace Table

/-- A name stands for the last declaration of that qualified name, else for a built-in type, else
for a type that is known by name alone, else for the only declaration of that simple name if it
has a qualified one. -/
def resolveName (t : Table) (name : String) : Option ResolvedName :=
  match t.declared? name with
  | some row => some ⟨name, row.declaration.simpleName⟩
  | none =>
    match builtin? name with
    | some q => some ⟨q, lastSegment q⟩
    | none =>
      if name ∈ t.externals then some ⟨name, lastSegment name⟩
      else
        match t.namedSimply name with
        | [row] => row.declaration.qualifiedName.map (⟨·, row.declaration.simpleName⟩)
        | _ => none

def resolves (t : Table) (name : String) : Bool := (t.resolveName name).isSome

def resolveType (t : Table) (type : TypeRef) : Option ResolvedType :=
  (t.resolveName type.name).map fun r => ⟨r.qualifiedName, r.simpleName, type.args⟩

/-- Every name written in the type stands for a known one. -/
def knows (t : Table) (type : TypeRef) : Bool := type.names.all t.resolves

end Table

end WrapperGen
