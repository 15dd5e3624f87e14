import WrapperGen.Declaration
import WrapperGen.Json.Print
import WrapperGen.Json.Reader
import WrapperGen.Table
import WrapperGen.TypeRef.Parser

namespace WrapperGen

open Json

/-- How the kind is written in a symbol dump. -/
def Kind.word : Kind → String
  | .classType => "class"
  | .interfaceType => "interface"
  | .objectType => "object"
  | .enumType => "enum"
  | .function => "function"
  | .property => "property"
  | .typeAlias => "typeAlias"

def Kind.ofWord? (word : String) : Option Kind := all.find? (·.word == word)

def Param.value (p : Param) : Value :=
  .record [("name", .optionalText p.name), ("type", .text p.type.display)]

def AnnotatedMember.value (m : AnnotatedMember) : Value :=
  let head : List (String × Value) :=
    [("annotations", .texts m.annotations), ("name", .text m.member.name)]
  match m.member.form with
  | .property type =>
    .record (head ++ [("kind", .text "property"), ("type", .text type.display)])
  | .function params =>
    .record (head ++ [("kind", .text "function"), ("params", .list (params.map Param.value))])

def Declaration.value (d : Declaration) : Value :=
  .record [("id", .optionalText d.id), ("kind", .text d.kind.word),
    ("qualifiedName", .optionalText d.qualifiedName), ("simpleName", .text d.simpleName),
    ("annotations", .texts d.annotations), ("supertypes", .texts (d.supertypes.map (·.display))),
    ("members", .list (d.members.map AnnotatedMember.value))]

def Declaration.text (d : Declaration) : String := d.value.compact

def Kind.ofText (word : String) : Except Problem Kind := orMismatch (ofWord? word)

/-- A kind is a word, or a record with that word as its only field and `null` in it. Anything else
in its place is malformed. -/
def Kind.read : Reader Kind
  | _, .text q => do ofText (← q.read)
  | 0, .record _ _ => .error .malformed
  | _ + 1, .record [] ending => do
    orElse ending
    .error .malformed
  | _ + 1, .record ((key, value) :: rest) ending => do
    let kind ← ofText (← key.read)
    match value with
    | .null => pure ()
    | value => .error value.refusal
    if !rest.isEmpty then .error .malformed
    orElse ending
    return kind
  | _, .fault p => .error p
  | _, _ => .error .malformed

def TypeRef.ofText? (text : String) : Option TypeRef :=
  match parse text with
  | .ok t => some t
  | .error _ => none

def TypeRef.read : Reader TypeRef
  | _, .text q => do orMismatch (ofText? (← q.read))
  | _, node => .error node.refusal

def TypeRef.ofValue? (v : Value) : Option TypeRef := do ofText? (← v.text?)

/-- The name of a parameter; `null` for none. -/
def Param.nameOf? : Value → Option (Option String)
  | .null => some none
  | .text s => some (some s)
  | _ => none

/-- A parameter is a record, or a list of its name and its type. -/
def Param.ofValue? : Value → Option Param
  | .record fields => do
    let name ← Value.fieldOnce? "name" fields
    let type ← Value.onlyField? "type" fields
    return ⟨← nameOf? (name.getD .null), ← TypeRef.ofValue? type⟩
  | .list [name, type] => do return ⟨← nameOf? name, ← TypeRef.ofValue? type⟩
  | _ => none

def Param.ofValues? : Value → Option (List Param)
  | .list items => items.mapM Param.ofValue?
  | _ => none

/-- The kinds of members in the order of their numbers. -/
inductive MemberKind where
  | property
  | function

/-- The kind of a member, by its word or by its number. -/
def MemberKind.ofValue? : Value → Option MemberKind
  | .text "property" => some .property
  | .text "function" => some .function
  | .number n =>
    if n = .ofNat 0 then some .property else if n = .ofNat 1 then some .function else none
  | _ => none

/-- The form of a member by its fields; those that do not belong to its kind do not count. -/
def MemberForm.ofFields? (fields : List (String × Value)) : Option MemberForm := do
  match ← MemberKind.ofValue? (← Value.onlyField? "kind" fields) with
  | .property => return .property (← TypeRef.ofValue? (← Value.onlyField? "type" fields))
  | .function =>
    match ← Value.fieldOnce? "params" fields with
    | none => return .function []
    | some params => return .function (← Param.ofValues? params)

def Member.ofFields? (fields : List (String × Value)) : Option Member := do
  let name ← (← Value.onlyField? "name" fields).text?
  return ⟨name, ← MemberForm.ofFields? fields⟩

namespace AnnotatedMember

/-- Reads the annotations where they stand and keeps the other fields as they are. -/
def collect (room : Nat) (annotations : Option (List String)) :
    List (Key × Node) → Except Problem (Option (List String) × List (String × Value))
  | [] => .ok (annotations, [])
  | (key, node) :: rest => do
    let name ← key.read
    if name = "annotations" then
      if annotations.isSome then .error .mismatch
      let found ← readList readText room node
      collect room (some found) rest
    else
      let v ← node.value room
      let (annotations, fields) ← collect room annotations rest
      return (annotations, (name, v) :: fields)

/-- A member is a record. Its shape is looked at when it has been read to its end. -/
def read : Reader AnnotatedMember
  | 0, .record _ _ => .error .malformed
  | room + 1, .record fields ending => do
    let (annotations, fields) ← collect room none fields
    orElse ending
    return ⟨annotations.getD [], ← orMismatch (Member.ofFields? fields)⟩
  | _, node => .error node.refusal

end AnnotatedMember

open RecordReader in
def Declaration.read : Reader Declaration :=
  openRead (Declaration.mk <$> fieldOr "id" (readOptional readText) none <*>
    field "kind" Kind.read <*>
    fieldOr "qualifiedName" (readOptional readText) none <*>
    field "simpleName" readText <*>
    fieldOr "annotations" (readList readText) [] <*>
    fieldOr "supertypes" (readList TypeRef.read) [] <*>
    fieldOr "members" (readList AnnotatedMember.read) [])

/-- The declarations of a round and the names of the types known without one. -/
structure Dump where
  declarations : List Declaration
  externals : List String

open RecordReader in
def Dump.read : Reader Dump :=
  openRead (Dump.mk <$> fieldOr "declarations" (readList Declaration.read) [] <*>
    fieldOr "externalTypes" (readList readText) [])

def Dump.table (d : Dump) : Table :=
  d.declarations.foldl Table.declare (d.externals.foldl Table.withExternal ∅)

def Table.ofText (text : String) : Except Problem Table :=
  Dump.table <$> Json.read Dump.read text

end WrapperGen
