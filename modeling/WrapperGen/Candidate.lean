import WrapperGen.Manifest
import WrapperGen.Rejection
import WrapperGen.ScanConfig
import WrapperGen.Table.Members

namespace WrapperGen

/-- A declaration that is marked as a view-model, with its marked members. -/
structure Candidate where
  symbol : Symbol
  states : List Member
  actions : List Member

def Table.candidates (t : Table) : List Candidate :=
  (t.markedSymbols .viewModel).map fun symbol => {
    symbol := symbol
    states := t.markedMembers symbol.id .uiState
    actions := t.markedMembers symbol.id .uiAction }

/-- The state entry of a type by the members marked as its state. -/
def Table.buildState (t : Table) (config : ScanConfig) (owner : String) :
    List Member → Except Rejection (Option StateEntry)
  | [] => .ok none
  | [member] =>
    match member.form with
    | .function _ => .error (.invalidStateShape owner member.name .function)
    | .property type =>
      match t.resolveType type with
      | none => .error (.invalidStateShape owner member.name (.unresolved type))
      | some container =>
        if container.qualifiedName ∉ config.stateContainers then
          .error (.invalidStateShape owner member.name (.other container.qualifiedName))
        else
          match container.args with
          | [] | [.star] => .error (.missingStateTypeArgument owner member.name)
          | [.type value] =>
            match t.resolveType value with
            | none => .error (.missingStateTypeArgument owner member.name)
            | some value => .ok (some ⟨member.name, value.simpleName⟩)
          | args =>
            .error (.invalidStateShape owner member.name
              (.manyArguments container.qualifiedName args.length))
  | members => .error (.multipleStateMarkers owner (members.map Member.name))

/-- A parameter keeps its name; the one at `index` is called so if it has none. A type that is not
known goes by its simple name as written. -/
def Table.buildParam (t : Table) (index : Nat) (param : Param) : ParamEntry where
  label :=
    match param.name with
    | none | some "" => "p" ++ toString index
    | some name => name
  typeName :=
    match t.resolveType param.type with
    | some type => type.simpleName
    | none => param.type.simpleName

/-- An action is a function; a property marked as one is passed over. -/
def Table.buildAction? (t : Table) (member : Member) : Option ActionEntry :=
  match member.form with
  | .property _ => none
  | .function params => some ⟨member.name, params.mapIdx t.buildParam⟩

/-- The entry of a candidate, or why it has none. -/
def Table.build (t : Table) (config : ScanConfig) (c : Candidate) : Except Rejection Entry :=
  if !c.symbol.kind.isClassLike then
    .error (.invalidMarkerTarget c.symbol.displayName c.symbol.kind)
  else
    match c.symbol.qualifiedName with
    | none => .error (.unresolvableSymbol c.symbol.simpleName)
    | some qualifiedName => do
      let state ← t.buildState config qualifiedName c.states
      return ⟨qualifiedName, c.symbol.simpleName, state, c.actions.filterMap t.buildAction?⟩

end WrapperGen
