import WrapperGen.Json.Reader

namespace WrapperGen

/-- Which types may hold the state of a view-model. -/
structure ScanConfig where
  stateContainers : List String
  deriving DecidableEq

/-- The stream that keeps its latest value. -/
def ScanConfig.standard : ScanConfig := ⟨["kotlinx.coroutines.flow.StateFlow"]⟩

open Json RecordReader in
def ScanConfig.read : Reader ScanConfig :=
  openRead (ScanConfig.mk <$>
    fieldOr "stateContainers" (readList readText) standard.stateContainers)

end WrapperGen
