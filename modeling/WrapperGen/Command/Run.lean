import WrapperGen.Command.Help
import WrapperGen.Declaration.Text
import WrapperGen.Generator
import WrapperGen.Resolution

namespace WrapperGen

/-- Why a command fails. -/
inductive CommandError where
  | unreadableRound (path : Path)
  | malformedRound (path : Path)
  | resolution (failure : Failure StoreError)
  | rejected (rejections : List Rejection)
  | config (error : ConfigError)
  | generator (error : GeneratorError)
  | notGenerated (failures : List Swift.EntryFailure)
  | store (error : StoreError)

def CommandError.message : CommandError → String
  | .unreadableRound path => "Failed to read " ++ path.text
  | .malformedRound path => "Failed to parse symbol dump " ++ path.text
  | .resolution failure => failure.message
  | .rejected rejections =>
    toString rejections.length ++ " view-model(s) rejected: " ++
      ", ".intercalate (rejections.map fun r => r.symbol ++ " (" ++ r.rule ++ ")")
  | .config error => error.message
  | .generator error => error.message
  | .notGenerated failures =>
    toString failures.length ++ (if failures.length = 1 then " entry" else " entries") ++
      " not generated:\n" ++ "\n".intercalate (failures.map Swift.EntryFailure.message)
  | .store error => error.message

/-- What a command prints, line by line, and why it fails if it does. -/
structure CommandResult where
  lines : List String
  error : Option CommandError

namespace CommandResult

def fail (error : CommandError) : CommandResult := ⟨[], some error⟩

def exitCode (r : CommandResult) : Nat := if r.error.isSome then 1 else 0

def stdout (r : CommandResult) : String := String.join (r.lines.map (· ++ "\n"))

def stderr (r : CommandResult) : String :=
  match r.error with
  | none => ""
  | some error => "Error: " ++ error.message

end CommandResult

namespace Command

variable {m : Type → Type} [Monad m] [Files m]

def loadRound (p : Path) : m (Except CommandError Table) := do
  match ← Files.readText p with
  | .error _ => return .error (.unreadableRound p)
  | .ok text =>
    match Table.ofText text with
    | .error _ => return .error (.malformedRound p)
    | .ok table => return .ok table

/-- Processes the rounds one after the other, and the end of them. The receipt of the manifest is
its digest. -/
def resolveRounds (out : Path) (r : Resolution String) :
    List Path → m (Except CommandError (Resolution String))
  | [] => do
    match ← r.finish (Manifest.writeTo out) with
    | (.ok (), r) => return .ok r
    | (.error failure, _) => return .error (.resolution failure)
  | round :: rest => do
    match ← loadRound round with
    | .error error => return .error error
    | .ok table =>
      match ← r.process (Manifest.writeTo out) table with
      | (.ok _, r) => resolveRounds out r rest
      | (.error failure, _) => return .error (.resolution failure)

/-- Containers that are accepted besides the standard ones, each once. -/
def scanConfig (containers : List String) : ScanConfig :=
  ⟨containers.foldl (fun known c => if c ∈ known then known else known ++ [c])
    ScanConfig.standard.stateContainers⟩

def runScan (rounds : List Path) (out : Path) (containers : List String) (strict : Bool) :
    m CommandResult := do
  match ← resolveRounds out (.start (scanConfig containers)) rounds with
  | .error error => return .fail error
  | .ok r =>
    let lines := r.receipt?.toList.map fun digest => digest ++ " " ++ out.text
    if strict ∧ !r.rejections.isEmpty then return ⟨lines, some (.rejected r.rejections)⟩
    return ⟨lines, none⟩

def loadConfig : Option Path → m (Except ConfigError GeneratorConfig)
  | none => return .ok .standard
  | some p => GeneratorConfig.load p

def runGenerate (manifest outDir : Path) (config : Option Path) (strict : Bool) :
    m CommandResult := do
  match ← loadConfig config with
  | .error error => return .fail (.config error)
  | .ok c =>
    match ← runGenerator manifest outDir c with
    | .error error => return .fail (.generator error)
    | .ok report =>
      let lines := report.output.written.map Path.text
      if strict ∧ !report.failures.isEmpty then
        return ⟨lines, some (.notGenerated report.failures)⟩
      return ⟨lines, none⟩

def runDigest (manifest : Path) : m CommandResult := do
  match ← Manifest.readFrom manifest with
  | .error error => return .fail (.store error)
  | .ok found => return ⟨[Manifest.digest found], none⟩

def run : Command → m CommandResult
  | .scan rounds out containers strict => runScan rounds out containers strict
  | .generate manifest outDir config strict => runGenerate manifest outDir config strict
  | .digest manifest => runDigest manifest

end Command

end WrapperGen
