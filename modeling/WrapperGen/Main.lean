import WrapperGen.Command.Help
import WrapperGen.Command.Run

namespace WrapperGen

/-- What went wrong with a file of this machine. -/
def Fault.ofError : IO.Error → Fault
  | .noFileOrDirectory .. => .noSuchFile
  | .alreadyExists .. => .alreadyExists
  | .inappropriateType _ code _ => if code = 21 then .isADirectory else .notADirectory
  | .resourceBusy .. => .busy
  | error => .other (toString error)

def attempt {α : Type} (action : IO α) : IO (Except Fault α) := do
  try
    return .ok (← action)
  catch error => return .error (.ofError error)

/-- The path as the working directory completes it. -/
def Path.here (p : Path) := do return (← IO.currentDir) / p.text

def makeTemporaryFile (directory : Path) : IO Path := do
  let fresh := directory.join (".tmp" ++ toString (← IO.monoNanosNow))
  let _ ← IO.FS.Handle.mk fresh.text .writeNew
  return fresh

def isRegularFile (p : Path) : IO Bool := do
  try
    return (← (← p.here).metadata).type == .file
  catch _ => return false

instance : Files IO where
  Temporary := Path
  makeDir p := attempt (IO.FS.createDir p.text)
  isDir p := do (← p.here).isDir
  isFile := isRegularFile
  readBytes p := attempt (IO.FS.readBinFile p.text)
  makeTemporary directory := attempt (makeTemporaryFile directory)
  fill temporary bytes := attempt (IO.FS.writeBinFile temporary.text bytes)
  persist temporary p := attempt (IO.FS.rename temporary.text p.text)
  discard temporary := do
    let _ ← attempt (IO.FS.removeFile temporary.text)
  remove p := attempt (IO.FS.removeFile p.text)
  namesIn p := attempt do
    let entries ← (← p.here).readDir
    return entries.toList.map (·.fileName)

end WrapperGen

open WrapperGen

/-- The program's code is 0 for success, 1 for a command that fails, and 2 for wrong arguments. -/
def main (args : List String) : IO UInt32 := do
  match Command.parse args with
  | .error (.help topic) =>
    IO.println topic.text
    return 0
  | .error .usage =>
    IO.eprintln "error: wrong arguments\n\nFor more information, try '--help'."
    return 2
  | .ok command =>
    let result : CommandResult ← command.run
    IO.print result.stdout
    if result.error.isSome then IO.eprintln result.stderr
    return result.exitCode.toUInt32
