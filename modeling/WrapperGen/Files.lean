import WrapperGen.Files.Path

namespace WrapperGen

/-- Why a file or a directory could not be used. -/
inductive Fault where
  | noSuchFile
  | alreadyExists
  | notADirectory
  | isADirectory
  | busy
  | nameTooLong
  | zeroByte
  | notText
  | other (text : String)
  deriving DecidableEq

def Fault.message : Fault → String
  | .noSuchFile => "No such file or directory (os error 2)"
  | .alreadyExists => "File exists (os error 17)"
  | .notADirectory => "Not a directory (os error 20)"
  | .isADirectory => "Is a directory (os error 21)"
  | .busy => "Device or resource busy (os error 16)"
  | .nameTooLong => "File name too long (os error 36)"
  | .zeroByte => "file name contained an unexpected NUL byte"
  | .notText => "stream did not contain valid UTF-8"
  | .other text => text

/-- The single steps on files and directories. -/
class Files (m : Type → Type) where
  /-- A file that waits for its place, under a name of its own. -/
  Temporary : Type
  makeDir : Path → m (Except Fault Unit)
  isDir : Path → m Bool
  isFile : Path → m Bool
  readBytes : Path → m (Except Fault ByteArray)
  /-- An empty file in a directory, under a name that nothing there has. -/
  makeTemporary : Path → m (Except Fault Temporary)
  fill : Temporary → ByteArray → m (Except Fault Unit)
  /-- The file takes the place of the one at the path, if there is one. -/
  persist : Temporary → Path → m (Except Fault Unit)
  /-- Removes the file, or leaves it where that fails. -/
  discard : Temporary → m Unit
  remove : Path → m (Except Fault Unit)
  /-- The names in a directory, in no particular order. -/
  namesIn : Path → m (Except Fault (List String))

namespace Files

variable {m : Type → Type} [Monad m] [Files m]

/-- A directory that is there already is as good as a new one. -/
def makeOrKeepDir (p : Path) : m (Except Fault Unit) := do
  match ← makeDir p with
  | .ok () => return .ok ()
  | .error fault => if ← isDir p then return .ok () else return .error fault

/-- Makes a directory; those above it, nearest first and each by its names from the innermost
outwards, are made before it if need be. -/
def makeDirs (p : Path) : List (List String) → m (Except Fault Unit)
  | [] => makeOrKeepDir p
  | names :: above => do
    match ← makeDir p with
    | .ok () => return .ok ()
    | .error .noSuchFile =>
      match ← makeDirs (.ofNames p.isAbsolute names) above with
      | .ok () => makeOrKeepDir p
      | .error fault => return .error fault
    | .error fault => if ← isDir p then return .ok () else return .error fault

def createDirs (p : Path) : m (Except Fault Unit) :=
  if p.text.isEmpty then return .ok () else makeDirs p p.above

/-- A file with these bytes takes the place of the one at the path, if there is one. The bytes go
to a file beside it first, which does not stay where anything fails. -/
def replace (p : Path) (bytes : ByteArray) : m (Except Fault Unit) := do
  match ← makeTemporary p.parent with
  | .error fault => return .error fault
  | .ok temporary =>
    match ← fill temporary bytes with
    | .error fault =>
      discard temporary
      return .error fault
    | .ok () =>
      match ← persist temporary p with
      | .error fault =>
        discard temporary
        return .error fault
      | .ok () => return .ok ()

/-- The file is there completely or not at all; missing directories are made for it. -/
def writeAtomic (p : Path) (bytes : ByteArray) : m (Except Fault Unit) := do
  match ← createDirs p.parent with
  | .ok () => replace p bytes
  | .error fault => return .error fault

def readText (p : Path) : m (Except Fault String) := do
  match ← readBytes p with
  | .error fault => return .error fault
  | .ok bytes =>
    match String.fromUTF8? bytes with
    | some text => return .ok text
    | none => return .error .notText

end Files

end WrapperGen
