import WrapperGen.Swift.Wrapper

namespace WrapperGen.Swift

/-- A source file of one wrapper. -/
structure SourceUnit where
  className : String
  typeName : String
  fileName : String
  source : String
  deriving DecidableEq

structure Generation where
  units : List SourceUnit
  failures : List EntryFailure
  deriving DecidableEq

def Generation.isComplete (g : Generation) : Bool := g.failures.isEmpty

/-- The qualified name as one identifier. -/
def flatName (className : String) : String :=
  String.ofList (className.toList.map fun c => if c = '.' then '_' else c)

/-- The name of the wrapper of an entry: by its simple name, or by its qualified one if another
entry has the same simple name. -/
def wrapperName (c : GeneratorConfig) (entries : List Entry) (e : Entry) : String :=
  c.wrapperPrefix ++
    if 1 < entries.countP (·.simpleName == e.simpleName) then flatName e.className else e.simpleName

def unit (c : GeneratorConfig) (e : Entry) (typeName : String) :
    Except EntryFailure SourceUnit := do
  let source ← renderEntry c e typeName
  return ⟨e.className, typeName, typeName ++ ".swift", source⟩

def collectUnits : List (Except EntryFailure SourceUnit) → Generation
  | [] => ⟨[], []⟩
  | .ok u :: rest =>
    let g := collectUnits rest
    { g with units := u :: g.units }
  | .error f :: rest =>
    let g := collectUnits rest
    { g with failures := f :: g.failures }

/-- A unit or a failure for each entry, in the order of the manifest. -/
def generate (c : GeneratorConfig) (m : Manifest) : Generation :=
  collectUnits (m.toList.map fun e => unit c e (wrapperName c m.toList e))

end WrapperGen.Swift
