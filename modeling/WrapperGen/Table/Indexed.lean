import WrapperGen.Declaration.Text
import WrapperGen.Roster
import WrapperGen.Table.Members

namespace WrapperGen

/-- Values that are looked up by a name. -/
abbrev Index (α : Type) := Roster (α := String × α) Prod.fst

namespace Index

variable {α : Type}

def get? (x : Index α) (name : String) : Option α := (x.find? name).map Prod.snd

/-- Gives a name its value; the one it had before is lost. -/
def set (x : Index α) (name : String) (value : α) : Index α := x.insert (name, value)

end Index

/-- Adds those members of whose shape none is there yet. -/
def addShapes (found members : List AnnotatedMember) : List AnnotatedMember :=
  members.foldl (fun found a =>
    if found.any (·.member.shape == a.member.shape) then found else found ++ [a]) found

/-- A table as it is kept for searching: the declarations and their identities by position, and
where each identity, each qualified name and each simple name stands. -/
structure IndexedTable where
  declarations : List Declaration
  ids : List String
  byId : Index Nat
  byQualified : Index Nat
  bySimple : Index (List Nat)
  externals : List String

namespace IndexedTable

def empty : IndexedTable := ⟨[], [], ∅, ∅, ∅, []⟩

instance : EmptyCollection IndexedTable := ⟨empty⟩
instance : Inhabited IndexedTable := ⟨empty⟩

def size (x : IndexedTable) : Nat := x.declarations.length

def isEmpty (x : IndexedTable) : Bool := x.declarations.isEmpty

/-- Enters a declaration and its identity under a position. -/
def enter (x : IndexedTable) (position : Nat) (d : Declaration) (id : String) : IndexedTable :=
  { x with
    ids := if position = x.ids.length then x.ids ++ [id] else x.ids.set position id
    byId := x.byId.set id position
    byQualified :=
      match d.qualifiedName with
      | some q => x.byQualified.set q position
      | none => x.byQualified
    bySimple :=
      x.bySimple.set d.simpleName ((x.bySimple.get? d.simpleName).getD [] ++ [position]) }

/-- Enters all declarations anew, under the identities that they have. -/
def reindex (x : IndexedTable) : IndexedTable :=
  (x.declarations.zip x.ids).zipIdx.foldl (fun y ((d, id), position) => y.enter position d id)
    { x with ids := [], byId := ∅, byQualified := ∅, bySimple := ∅ }

/-- Adds a declaration; one of the same identity gives way to it, and then all are entered anew. -/
def declare (x : IndexedTable) (d : Declaration) : IndexedTable :=
  let id := d.idAt x.size
  match x.byId.get? id with
  | some position => reindex { x with declarations := x.declarations.set position d }
  | none => { x.enter x.size d id with declarations := x.declarations ++ [d] }

/-- Makes a type known by its name alone. -/
def withExternal (x : IndexedTable) (name : String) : IndexedTable :=
  { x with externals := if name ∈ x.externals then x.externals else x.externals ++ [name] }

def rows (x : IndexedTable) : List Row := List.zipWith Row.mk x.ids x.declarations

/-- The declaration of an identity. -/
def row? (x : IndexedTable) (id : String) : Option Row := (x.byId.get? id).bind (x.rows[·]?)

/-- The declaration that a qualified name leads to. -/
def declared? (x : IndexedTable) (qualifiedName : String) : Option Row :=
  (x.byQualified.get? qualifiedName).bind (x.rows[·]?)

/-- The declarations that a simple name leads to. -/
def namedSimply (x : IndexedTable) (simpleName : String) : List Row :=
  ((x.bySimple.get? simpleName).getD []).filterMap (x.rows[·]?)

/-- What a name stands for, as in `Table.resolveName`. -/
def resolveName (x : IndexedTable) (name : String) : Option ResolvedName :=
  match x.byQualified.get? name with
  | some position => x.declarations[position]?.map (⟨name, ·.simpleName⟩)
  | none =>
    match builtin? name with
    | some q => some ⟨q, lastSegment q⟩
    | none =>
      if name ∈ x.externals then some ⟨name, lastSegment name⟩
      else
        match x.bySimple.get? name with
        | some [position] => x.declarations[position]?.bind fun d =>
          d.qualifiedName.map (⟨·, d.simpleName⟩)
        | _ => none

def resolveType (x : IndexedTable) (type : TypeRef) : Option ResolvedType :=
  (x.resolveName type.name).map fun r => ⟨r.qualifiedName, r.simpleName, type.args⟩

/-- Every name written in the type stands for a known one. -/
def knows (x : IndexedTable) (type : TypeRef) : Bool :=
  type.names.all fun name => (x.resolveName name).isSome

/-- The position of the declaration that a supertype stands for. -/
def parent? (x : IndexedTable) (supertype : TypeRef) : Option Nat :=
  (x.resolveName supertype.name).bind fun r => x.byQualified.get? r.qualifiedName

/-- The positions of the parents of a declaration, in the order written. -/
def parents (x : IndexedTable) (d : Declaration) : List Nat := d.supertypes.filterMap x.parent?

/-- The positions at which the walk has not been. -/
def unvisited (x : IndexedTable) (visited : List Nat) : List Nat :=
  (List.range x.size).filter (· ∉ visited)

theorem length_unvisited_lt {x : IndexedTable} {visited : List Nat} {position : Nat}
    {d : Declaration} (new : position ∉ visited) (there : x.declarations[position]? = some d) :
    (x.unvisited (position :: visited)).length < (x.unvisited visited).length := by
  have inside : position < x.size := (List.getElem?_eq_some_iff.mp there).1
  have rest : x.unvisited (position :: visited) =
      (x.unvisited visited).filter (· ≠ position) := by
    simp only [unvisited, List.filter_filter, List.mem_cons, not_or, Bool.decide_and]
  rw [rest]
  refine List.length_filter_lt_length_iff_exists.mpr ⟨position, ?_, by simp⟩
  exact List.mem_filter.mpr ⟨List.mem_range.mpr inside, by simpa using new⟩

/-- Goes on with the members found so far and the positions that wait: a position that comes up
again is passed over, and the parents of the others come before all that waits. -/
def collect (x : IndexedTable) (visited : List Nat) (found : List AnnotatedMember)
    (waiting : List Nat) : List AnnotatedMember :=
  match waiting with
  | [] => found
  | position :: waiting =>
    if _again : position ∈ visited then x.collect visited found waiting
    else
      match _there : x.declarations[position]? with
      | none => x.collect visited found waiting
      | some d =>
        x.collect (position :: visited) (addShapes found d.members) (x.parents d ++ waiting)
termination_by ((x.unvisited visited).length, waiting.length)
decreasing_by
  · exact Prod.Lex.right _ (by simp)
  · exact Prod.Lex.right _ (by simp)
  · exact Prod.Lex.left _ _ (length_unvisited_lt (by assumption) (by assumption))

/-- The members of the declaration at a position and of those it inherits from; of several members
of one shape only the first is visible. -/
def membersAt (x : IndexedTable) (position : Nat) : List AnnotatedMember :=
  x.collect [] [] [position]

/-- The declarations that carry a marker. -/
def markedSymbols (x : IndexedTable) (m : Marker) : List Symbol :=
  (x.rows.filter fun row => m.isAmong row.declaration.annotations).map Row.symbol

/-- The visible members of a symbol that carry a marker. -/
def markedMembers (x : IndexedTable) (id : String) (m : Marker) : List Member :=
  match x.byId.get? id with
  | none => []
  | some position => ((x.membersAt position).filter (m.isAmong ·.annotations)).map (·.member)

/-- Every type written in the supertypes and the visible members of a symbol is known. -/
def isReady (x : IndexedTable) (id : String) : Bool :=
  match x.byId.get? id with
  | none => false
  | some position =>
    match x.declarations[position]? with
    | none => false
    | some d =>
      d.supertypes.all x.knows &&
        (x.membersAt position).all fun a => a.member.types.all x.knows

end IndexedTable

def Dump.indexed (d : Dump) : IndexedTable :=
  d.declarations.foldl IndexedTable.declare (d.externals.foldl IndexedTable.withExternal ∅)

def IndexedTable.ofText (text : String) : Except Json.Problem IndexedTable :=
  Dump.indexed <$> Json.read Dump.read text

end WrapperGen
