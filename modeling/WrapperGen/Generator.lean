import WrapperGen.Config.Toml
import WrapperGen.Manifest.Store
import WrapperGen.Output
import WrapperGen.Swift.Generation

namespace WrapperGen

inductive ConfigError where
  | access (failure : AccessFailure)
  | invalid (path : Path)
  deriving DecidableEq

def ConfigError.message : ConfigError → String
  | .access failure => failure.message
  | .invalid path => "invalid generator config " ++ path.text

/-- Why no files are generated at all. -/
inductive GeneratorError where
  | manifest (error : StoreError)
  | access (failure : AccessFailure)
  deriving DecidableEq

def GeneratorError.message : GeneratorError → String
  | .manifest error => error.message
  | .access failure => failure.message

structure GeneratorReport where
  output : OutputReport
  failures : List Swift.EntryFailure
  /-- The digest of the manifest that was read. -/
  digest : String
  deriving DecidableEq

variable {m : Type → Type} [Monad m] [Files m]

def GeneratorConfig.load (p : Path) : m (Except ConfigError GeneratorConfig) := do
  match ← Files.readText p with
  | .error fault => return .error (.access ⟨p, fault⟩)
  | .ok text =>
    match ofToml? text with
    | some c => return .ok c
    | none => return .error (.invalid p)

/-- The files of the units. -/
def Swift.Generation.files (g : Generation) : List OutputFile :=
  g.units.map fun u => ⟨u.fileName, u.source⟩

/-- Reads a manifest and writes the wrappers of its entries into a directory. -/
def runGenerator (manifest dir : Path) (c : GeneratorConfig) :
    m (Except GeneratorError GeneratorReport) := do
  match ← Manifest.readFrom manifest with
  | .error error => return .error (.manifest error)
  | .ok found =>
    let generation := Swift.generate c found
    match ← Output.write dir generation.files c.header with
    | .error failure => return .error (.access failure)
    | .ok report => return .ok ⟨report, generation.failures, Manifest.digest found⟩

end WrapperGen
