import WrapperGen.Digest
import WrapperGen.Json.Print
import WrapperGen.Json.Reader
import WrapperGen.Manifest

namespace WrapperGen

open Json

def StateEntry.value (s : StateEntry) : Value :=
  .record [("property", .text s.property), ("typeSimpleName", .text s.typeName)]

def ParamEntry.value (p : ParamEntry) : Value :=
  .record [("paramLabel", .text p.label), ("typeSimpleName", .text p.typeName)]

def ActionEntry.value (a : ActionEntry) : Value :=
  .record [("function", .text a.function), ("params", .list (a.params.map ParamEntry.value))]

/-- Fields that hold their default are written too. -/
def Entry.value (e : Entry) : Value :=
  .record [("className", .text e.className), ("simpleName", .text e.simpleName),
    ("state", (e.state.map StateEntry.value).getD .null),
    ("actions", .list (e.actions.map ActionEntry.value))]

open RecordReader in
def StateEntry.read : Reader StateEntry :=
  openRead (StateEntry.mk <$> field "property" readText <*> field "typeSimpleName" readText)

open RecordReader in
def ParamEntry.read : Reader ParamEntry :=
  openRead (ParamEntry.mk <$> field "paramLabel" readText <*> field "typeSimpleName" readText)

open RecordReader in
def ActionEntry.read : Reader ActionEntry :=
  openRead (ActionEntry.mk <$> field "function" readText <*>
    fieldOr "params" (readList ParamEntry.read) [])

open RecordReader in
def Entry.read : Reader Entry :=
  openRead (Entry.mk <$> field "className" readText <*> field "simpleName" readText <*>
    fieldOr "state" (readOptional StateEntry.read) none <*>
    fieldOr "actions" (readList ActionEntry.read) [])

/-- Why a text is not a manifest. -/
inductive ManifestError where
  | malformed (problem : Problem)
  | unsupportedVersion (found : Nat)
  | duplicateEntry (className : String)
  deriving DecidableEq

/-- What is said first; where a malformed text goes wrong is not told. -/
def ManifestError.message : ManifestError → String
  | .malformed _ => "malformed manifest:"
  | .unsupportedVersion found =>
    "manifest version " ++ toString found ++ " is not supported (supported: 1..=" ++
      toString manifestVersion ++ ")"
  | .duplicateEntry className =>
    "manifest lists view-model '" ++ className ++ "' more than once"

/-- A text of the form of a manifest, before its version and its entries are looked at. -/
structure ManifestDraft where
  version : Nat
  entries : List Entry
  deriving DecidableEq

open RecordReader in
def ManifestDraft.read : Reader ManifestDraft :=
  openRead (ManifestDraft.mk <$> fieldOr "version" (readNat (Nat.pow 2 32)) manifestVersion <*>
    fieldOr "viewModels" (readList Entry.read) [])

/-- The first name that stands a second time in a list. -/
def firstRepeated (seen : List String) : List String → Option String
  | [] => none
  | name :: rest => if name ∈ seen then some name else firstRepeated (name :: seen) rest

/-- The manifest of a draft of the supported version in which no class stands twice. -/
def ManifestDraft.manifest (d : ManifestDraft) : Except ManifestError Manifest :=
  if d.version ≠ manifestVersion then .error (.unsupportedVersion d.version)
  else
    match firstRepeated [] (d.entries.map Entry.className) with
    | some className => .error (.duplicateEntry className)
    | none => .ok (.ofList d.entries)

namespace Manifest

def value (m : Manifest) : Value :=
  .record [("version", .nat manifestVersion), ("viewModels", .list (m.toList.map Entry.value))]

/-- The one text in which a manifest is written. -/
def text (m : Manifest) : String := (value m).indented ++ "\n"

def ofText (text : String) : Except ManifestError Manifest :=
  match Json.read ManifestDraft.read text with
  | .error problem => .error (.malformed problem)
  | .ok draft => draft.manifest

def digest (m : Manifest) : String := Digest.hex (text m)

end Manifest

end WrapperGen
