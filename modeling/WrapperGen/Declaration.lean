import WrapperGen.Marker
import WrapperGen.Symbol

namespace WrapperGen

/-- A member with the annotations written on it. -/
structure AnnotatedMember where
  annotations : List String
  member : Member
  deriving DecidableEq

/-- A declaration as a symbol dump gives it. -/
structure Declaration where
  id : Option String
  kind : Kind
  qualifiedName : Option String
  simpleName : String
  annotations : List String
  supertypes : List TypeRef
  members : List AnnotatedMember
  deriving DecidableEq

namespace Declaration

/-- A class of the given qualified name, without members. -/
def ofClass (qualifiedName : String) : Declaration where
  id := none
  kind := .classType
  qualifiedName := some qualifiedName
  simpleName := lastSegment qualifiedName
  annotations := []
  supertypes := []
  members := []

/-- A declaration that has no qualified name. -/
def ofLocal (id : String) (kind : Kind) (simpleName : String) : Declaration where
  id := some id
  kind := kind
  qualifiedName := none
  simpleName := simpleName
  annotations := []
  supertypes := []
  members := []

def withKind (d : Declaration) (kind : Kind) : Declaration :=
  { d with kind := kind }

def marked (d : Declaration) (m : Marker) : Declaration :=
  { d with annotations := d.annotations ++ [m.shortName] }

def extending (d : Declaration) (supertype : TypeRef) : Declaration :=
  { d with supertypes := d.supertypes ++ [supertype] }

def withMember (d : Declaration) (member : Member) (markers : List Marker) : Declaration :=
  { d with members := d.members ++ [⟨markers.map Marker.shortName, member⟩] }

/-- The types that are written in a declaration. -/
def types (d : Declaration) : List TypeRef :=
  d.supertypes ++ d.members.flatMap (·.member.types)

/-- The identity of a declaration that comes after `count` others: the one it states, else its
qualified name, else its simple name with the count. -/
def idAt (d : Declaration) (count : Nat) : String :=
  match d.id, d.qualifiedName with
  | some id, _ => id
  | none, some qualifiedName => qualifiedName
  | none, none => d.simpleName ++ "#" ++ toString count

end Declaration

end WrapperGen
