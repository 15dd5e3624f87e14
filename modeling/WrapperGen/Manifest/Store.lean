import WrapperGen.Files
import WrapperGen.Manifest.Text

namespace WrapperGen

/-- Why a manifest could not be read from a file or written to it. -/
inductive StoreError where
  | file (path : Path) (fault : Fault)
  | content (error : ManifestError)
  deriving DecidableEq

def StoreError.message : StoreError → String
  | .file path fault => "failed to access manifest at " ++ path.text ++ ": " ++ fault.message
  | .content error => error.message

namespace Manifest

variable {m : Type → Type} [Monad m] [Files m]

/-- Writes the text of a manifest to a file and gives its digest. -/
def writeTo (p : Path) (manifest : Manifest) : m (Except StoreError String) := do
  match ← Files.writeAtomic p (text manifest).toUTF8 with
  | .ok () => return .ok (digest manifest)
  | .error fault => return .error (.file p fault)

def readFrom (p : Path) : m (Except StoreError Manifest) := do
  match ← Files.readText p with
  | .ok text => return (ofText text).mapError .content
  | .error fault => return .error (.file p fault)

end Manifest

end WrapperGen
