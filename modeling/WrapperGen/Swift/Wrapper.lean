import WrapperGen.Config
import WrapperGen.Manifest
import WrapperGen.Swift.Name
import WrapperGen.Swift.Script

namespace WrapperGen.Swift

/-- The part that a name or a type plays in a wrapper. -/
inductive Usage where
  | wrapperName
  | simpleName
  | stateProperty
  | stateType (property : String)
  | action
  | paramLabel (function : String)
  | paramType (label function : String)
  deriving DecidableEq

def Usage.display : Usage → String
  | .wrapperName => "wrapper class name"
  | .simpleName => "view-model simple name"
  | .stateProperty => "state property"
  | .stateType property => "state property '" ++ property ++ "'"
  | .action => "action"
  | .paramLabel function => "parameter label of action '" ++ function ++ "'"
  | .paramType label function => "parameter '" ++ label ++ "' of action '" ++ function ++ "'"

/-- Why an entry gets no wrapper. -/
inductive EntryFailure where
  | invalidName (className name : String) (usage : Usage)
  | unsupportedType (className typeName : String) (usage : Usage) (reason : Unsupported)
  deriving DecidableEq

namespace EntryFailure

def className : EntryFailure → String
  | .invalidName className _ _ => className
  | .unsupportedType className _ _ _ => className

def message : EntryFailure → String
  | .invalidName className name usage =>
    "'" ++ className ++ "': " ++ usage.display ++ " '" ++ name ++ "' is not a valid identifier"
  | .unsupportedType className typeName usage reason =>
    "'" ++ className ++ "': " ++ usage.display ++ " has type '" ++ typeName ++
      "' with no generation rule (" ++ reason.message ++ ")"

end EntryFailure

def checkName (className name : String) (usage : Usage) : Except EntryFailure Unit :=
  if isIdentifier name then .ok () else .error (.invalidName className name usage)

def checkUse (className typeName : String) (usage : Usage) : Except EntryFailure Unit :=
  match checkType typeName with
  | .ok () => .ok ()
  | .error reason => .error (.unsupportedType className typeName usage reason)

def checkState (className : String) : Option StateEntry → Except EntryFailure Unit
  | none => .ok ()
  | some s => do
    checkName className s.property .stateProperty
    checkUse className s.typeName (.stateType s.property)

def checkParams (className function : String) : List ParamEntry → Except EntryFailure Unit
  | [] => .ok ()
  | p :: rest => do
    checkName className p.label (.paramLabel function)
    checkUse className p.typeName (.paramType p.label function)
    checkParams className function rest

def checkActions (className : String) : List ActionEntry → Except EntryFailure Unit
  | [] => .ok ()
  | a :: rest => do
    checkName className a.function .action
    checkParams className a.function a.params
    checkActions className rest

/-- Every name is an identifier and every type can be written. -/
def checkEntry (e : Entry) (typeName : String) : Except EntryFailure Unit := do
  checkName e.className typeName .wrapperName
  checkName e.className e.simpleName .simpleName
  checkState e.className e.state
  checkActions e.className e.actions

def headerSteps (c : GeneratorConfig) : List Step :=
  if c.header.isEmpty then [] else [.block c.header, .line ""]

def importSteps (c : GeneratorConfig) : List Step :=
  if c.imports.isEmpty then []
  else c.imports.map (fun name => .line ("import " ++ name)) ++ [.line ""]

def stateSteps (c : GeneratorConfig) : Option StateEntry → List Step
  | none => []
  | some s =>
    [.line ("private var " ++ s.property ++ "Subscription: " ++ c.subscriptionType ++ "?"),
      .line "",
      .line ("@Published private(set) var " ++ escape s.property ++ ": " ++ s.typeName)]

def subscribeSteps (c : GeneratorConfig) : Option StateEntry → List Step
  | none => []
  | some s =>
    let property := escape s.property
    [.line ("self." ++ property ++ " = viewModel." ++ property ++ ".value as! " ++ s.typeName),
      .line ("self." ++ s.property ++ "Subscription = viewModel." ++ property ++ "." ++
        c.subscribeMethod ++ " \x7b [weak self] value in"),
      .indent [
        .line "DispatchQueue.main.async \x7b",
        .indent [.line ("self?." ++ property ++ " = value as! " ++ s.typeName)],
        .line "\x7d"],
      .line "\x7d"]

def initSteps (c : GeneratorConfig) (e : Entry) : List Step :=
  [.line ("init(_ viewModel: " ++ e.simpleName ++ ") \x7b"),
    .indent (.line "self.viewModel = viewModel" :: subscribeSteps c e.state),
    .line "\x7d"]

def deinitSteps (c : GeneratorConfig) : Option StateEntry → List Step
  | none => []
  | some s =>
    [.line "",
      .line "deinit \x7b",
      .indent [.line (s.property ++ "Subscription?." ++ c.closeMethod ++ "()")],
      .line "\x7d"]

def signature (a : ActionEntry) : String :=
  ", ".intercalate (a.params.map fun p => escape p.label ++ ": " ++ p.typeName)

def arguments (a : ActionEntry) : String :=
  ", ".intercalate (a.params.map fun p => escape p.label ++ ": " ++ escape p.label)

def actionSteps (a : ActionEntry) : List Step :=
  [.line "",
    .line ("func " ++ escape a.function ++ "(" ++ signature a ++ ") \x7b"),
    .indent [.line ("viewModel." ++ escape a.function ++ "(" ++ arguments a ++ ")")],
    .line "\x7d"]

/-- The class that owns the view-model, shows its state and hands on its actions. -/
def classSteps (c : GeneratorConfig) (e : Entry) (typeName : String) : List Step :=
  [.line "@MainActor",
    .line ("final class " ++ typeName ++ ": ObservableObject \x7b"),
    .indent (.line ("private let viewModel: " ++ e.simpleName) :: stateSteps c e.state ++
      .line "" :: initSteps c e ++ deinitSteps c e.state ++ e.actions.flatMap actionSteps),
    .line "\x7d"]

def wrapperSteps (c : GeneratorConfig) (e : Entry) (typeName : String) : List Step :=
  headerSteps c ++ importSteps c ++ classSteps c e typeName

/-- The source text of the wrapper of an entry. -/
def renderEntry (c : GeneratorConfig) (e : Entry) (typeName : String) :
    Except EntryFailure String := do
  checkEntry e typeName
  return renderSteps (wrapperSteps c e typeName) ++ "\n"

end WrapperGen.Swift
