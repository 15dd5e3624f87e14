import WrapperGen.FirstOfEach
import WrapperGen.Table.Resolve

namespace WrapperGen

/-- The rows of other identities. -/
def Row.others (row : Row) (rows : List Row) : List Row := rows.filter (·.id != row.id)

theorem Row.length_others_lt {row : Row} {rows : List Row} (h : rows.any (·.id == row.id) = true) :
    (row.others rows).length < rows.length := by
  obtain ⟨r, hr, same⟩ := List.any_eq_true.mp h
  refine List.length_filter_lt_length_iff_exists.mpr ⟨r, hr, ?_⟩
  simpa using same

namespace Table

/-- The declarations that the supertypes of a row stand for, in the order written. -/
def parents (t : Table) (row : Row) : List Row :=
  row.declaration.supertypes.filterMap fun supertype =>
    (t.resolveName supertype.name).bind fun r => t.declared? r.qualifiedName

/-- The rows of `unseen` met from a stack of rows, depth first: a row comes before its parents,
and the parents of a row before what is left of the stack. -/
def visit (t : Table) (unseen stack : List Row) : List Row :=
  match stack with
  | [] => []
  | row :: stack =>
    if _met : unseen.any (·.id == row.id) then
      row :: visit t (row.others unseen) (t.parents row ++ stack)
    else visit t unseen stack
termination_by (unseen.length, stack.length)
decreasing_by
  · exact Prod.Lex.left _ _ (Row.length_others_lt (by assumption))
  · exact Prod.Lex.right _ (by simp)

/-- A row with all declarations it inherits from. -/
def ancestry (t : Table) (row : Row) : List Row := t.visit t.rows [row]

/-- The members of a row and of those it inherits from; of several members of one shape only the
first is visible. -/
def visibleMembers (t : Table) (row : Row) : List AnnotatedMember :=
  firstOfEach (·.member.shape) ((t.ancestry row).flatMap (·.declaration.members))

/-- The declarations that carry a marker. -/
def markedSymbols (t : Table) (m : Marker) : List Symbol :=
  (t.rows.filter fun row => m.isAmong row.declaration.annotations).map Row.symbol

/-- The visible members of a symbol that carry a marker. -/
def markedMembers (t : Table) (id : String) (m : Marker) : List Member :=
  match t.row? id with
  | none => []
  | some row => ((t.visibleMembers row).filter (m.isAmong ·.annotations)).map (·.member)

/-- Every type written in the supertypes and the visible members of a symbol is known. -/
def isReady (t : Table) (id : String) : Bool :=
  match t.row? id with
  | none => false
  | some row =>
    row.declaration.supertypes.all t.knows &&
      (t.visibleMembers row).all fun m => m.member.types.all t.knows

end Table

end WrapperGen
