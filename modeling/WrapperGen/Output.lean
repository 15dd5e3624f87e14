import WrapperGen.Files
import WrapperGen.Roster

namespace WrapperGen

/-- A file by its name in the output directory. -/
structure OutputFile where
  name : String
  text : String
  deriving DecidableEq

structure OutputReport where
  written : List Path
  removed : List Path
  deriving DecidableEq

/-- A file or directory that could not be used. -/
structure AccessFailure where
  path : Path
  fault : Fault
  deriving DecidableEq

def AccessFailure.message (f : AccessFailure) : String :=
  "failed to access " ++ f.path.text ++ ": " ++ f.fault.message

/-- The first line of a file, up to its line feed, is text and is the given line but for blanks at
its end. -/
def hasFirstLine (header : String) (bytes : ByteArray) : Bool :=
  match String.fromUTF8? ⟨(bytes.toList.takeWhile (· != 10)).toArray⟩ with
  | some line => String.ofList (trimEnd line.toList) == header
  | none => false

namespace Output

variable {m : Type → Type} [Monad m] [Files m]

/-- Writes the files one after the other up to the first that fails. -/
def writeFiles (dir : Path) : List OutputFile → m (Except AccessFailure Unit)
  | [] => return .ok ()
  | file :: rest => do
    match ← Files.writeAtomic (dir.join file.name) file.text.toUTF8 with
    | .ok () => writeFiles dir rest
    | .error fault => return .error ⟨dir.join file.name, fault⟩

/-- A file is stale if it begins with the header. What cannot be read is not. -/
def isStale (header : String) (p : Path) : m Bool := do
  match ← Files.readBytes p with
  | .ok bytes => return hasFirstLine header bytes
  | .error _ => return false

/-- Removes the stale files among the names that were not written, and gives their names. -/
def prune (dir : Path) (header : String) (written : List String) :
    List String → m (Except AccessFailure (List String))
  | [] => return .ok []
  | name :: rest => do
    let p := dir.join name
    let keep ← (do
      if name ∈ written then return true
      if !(← Files.isFile p) then return true
      return !(← isStale header p))
    if keep then prune dir header written rest
    else
      match ← Files.remove p with
      | .error fault => return .error ⟨p, fault⟩
      | .ok () =>
        match ← prune dir header written rest with
        | .ok removed => return .ok (name :: removed)
        | .error failure => return .error failure

/-- Writes the files into a directory. Then those files in it are removed that begin with the first
line of the header and were not written now; a header without a first line removes none. -/
def write (dir : Path) (files : List OutputFile) (header : String) :
    m (Except AccessFailure OutputReport) := do
  match ← Files.createDirs dir with
  | .error fault => return .error ⟨dir, fault⟩
  | .ok () =>
    match ← writeFiles dir files with
    | .error failure => return .error failure
    | .ok () =>
      let written := files.map fun file => dir.join file.name
      if (firstLine header).isEmpty then return .ok ⟨written, []⟩
      match ← Files.namesIn dir with
      | .error fault => return .error ⟨dir, fault⟩
      | .ok names =>
        match ← prune dir (firstLine header) (files.map OutputFile.name) names with
        | .error failure => return .error failure
        | .ok removed =>
          let removed : NameSet := .ofList removed
          return .ok ⟨written, removed.toList.map dir.join⟩

end Output

end WrapperGen
