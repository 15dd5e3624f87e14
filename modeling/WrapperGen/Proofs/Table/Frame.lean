import WrapperGen.Candidate
import WrapperGen.Proofs.Table.Readiness

namespace WrapperGen

namespace TypeRef

theorem walk_subset_walkArgs {value : TypeRef} {args : List TypeArg} (mem : .type value ∈ args) :
    value.walk ⊆ walkArgs args := by
  induction args with
  | nil => cases mem
  | cons arg rest ih =>
    obtain rfl | later := List.mem_cons.mp mem
    · exact List.subset_append_left _ _
    · cases arg with
      | star => exact ih later
      | type first => exact List.Subset.trans (ih later) (List.subset_append_right _ _)

/-- The names written in an argument are written in the type. -/
theorem names_subset_of_mem_args {type value : TypeRef} (mem : .type value ∈ type.args) :
    value.names ⊆ type.names := by
  cases type with
  | mk name args nullable =>
    refine List.map_subset _ ?_
    exact List.Subset.trans (walk_subset_walkArgs mem) (List.subset_cons_self _ _)

end TypeRef

namespace Table

variable {t u : Table} {row : Row}

/-- What a type has to be built from, whether it is marked or not. -/
def candidate (t : Table) (row : Row) : Candidate where
  symbol := row.symbol
  states := t.markedMembers row.id .uiState
  actions := t.markedMembers row.id .uiAction

theorem candidates_eq (t : Table) : t.candidates =
    (t.rows.filter fun row => Marker.viewModel.isAmong row.declaration.annotations).map
      t.candidate := by
  rw [candidates, markedSymbols, List.map_map]
  rfl

/-! ## Types of which the names stand for the same -/

/-- Every name written in the type stands in the second table for what it stands for in the first
one. -/
def Agrees (t u : Table) (type : TypeRef) : Prop :=
  ∀ name ∈ type.names, u.resolveName name = t.resolveName name

namespace Agrees

variable {type : TypeRef}

theorem resolveType_eq (h : t.Agrees u type) : u.resolveType type = t.resolveType type := by
  rw [resolveType, h type.name type.name_mem_names]
  rfl

theorem knows_eq (h : t.Agrees u type) : u.knows type = t.knows type := by
  rw [Bool.eq_iff_iff, knows, knows, List.all_eq_true, List.all_eq_true]
  refine forall₂_congr fun name written => ?_
  rw [resolves, resolves, h name written]

theorem of_mem_args (h : t.Agrees u type) {value : TypeRef} (mem : .type value ∈ type.args) :
    t.Agrees u value :=
  fun name written => h name (TypeRef.names_subset_of_mem_args mem written)

end Agrees

theorem args_of_resolveType {type : TypeRef} {r : ResolvedType} (h : t.resolveType type = some r) :
    r.args = type.args := by
  obtain ⟨_, _, rfl⟩ := Option.map_eq_some_iff.mp h
  rfl

/-- The state is built from the type of its property and the argument of that type. -/
theorem buildState_eq_of_agrees {members : List Member}
    (agrees : ∀ m ∈ members, ∀ type ∈ m.types, t.Agrees u type) (config : ScanConfig)
    (owner : String) : u.buildState config owner members = t.buildState config owner members := by
  obtain _ | ⟨member, _ | _⟩ := members
  · rfl
  · cases form : member.form with
    | function params => simp only [buildState, form]
    | property type =>
      have written : type ∈ member.types := by
        rw [Member.types, form]
        exact List.mem_singleton_self type
      have same := agrees member (List.mem_singleton_self member) type written
      simp only [buildState, form, same.resolveType_eq]
      cases container : t.resolveType type with
      | none => rfl
      | some r =>
        have args := args_of_resolveType container
        -- only a single type argument is looked up; all other shapes are refused as they stand
        rcases own : r.args with _ | ⟨_ | value, _ | _⟩
        case cons.type.nil =>
          have mem : .type value ∈ type.args := by
            rw [← args, own]
            exact List.mem_singleton_self _
          simp only [own, (same.of_mem_args mem).resolveType_eq]
        all_goals simp only [own]
  · rfl

theorem buildAction?_eq_of_agrees {member : Member}
    (agrees : ∀ type ∈ member.types, t.Agrees u type) :
    u.buildAction? member = t.buildAction? member := by
  cases form : member.form with
  | property type => simp only [buildAction?, form]
  | function params =>
    have types : member.types = params.map Param.type := by rw [Member.types, form]
    have built : params.mapIdx u.buildParam = params.mapIdx t.buildParam := by
      refine List.mapIdx_eq_mapIdx_iff.mpr fun i inside => ?_
      have mem : params[i].type ∈ member.types :=
        types ▸ List.mem_map_of_mem (List.getElem_mem _)
      rw [buildParam, (agrees _ mem).resolveType_eq]
      rfl
    simp only [buildAction?, form, built]

/-- A type is built alike by two tables for which its marked members mean the same. -/
theorem build_eq_of_agrees {c : Candidate}
    (states : ∀ m ∈ c.states, ∀ type ∈ m.types, t.Agrees u type)
    (actions : ∀ m ∈ c.actions, ∀ type ∈ m.types, t.Agrees u type) (config : ScanConfig) :
    u.build config c = t.build config c := by
  have built : c.actions.filterMap u.buildAction? = c.actions.filterMap t.buildAction? :=
    List.filterMap_congr fun m mem => buildAction?_eq_of_agrees (actions m mem)
  simp only [build, buildState_eq_of_agrees states, built]

/-! ## Tables in which a row inherits the same -/

/-- The row is in both tables, and it sees the same members in them. -/
structure SeesAlike (t u : Table) (row : Row) : Prop where
  before : t.row? row.id = some row
  after : u.row? row.id = some row
  members : u.visibleMembers row = t.visibleMembers row

namespace SeesAlike

theorem of_parents_eq (mem : row ∈ t.rows) (rows : ∀ r ∈ t.rows, r ∈ u.rows)
    (parents : ∀ r, t.Inherits row r → u.parents r = t.parents r) : t.SeesAlike u row where
  before := row?_eq_some_iff.mpr ⟨mem, rfl⟩
  after := row?_eq_some_iff.mpr ⟨rows row mem, rfl⟩
  members := by
    rw [visibleMembers, ancestry_eq_of_parents_eq mem
      (fun r inherits => rows r (inherits.mem_rows mem)) parents]
    rfl

theorem markedMembers_eq (h : t.SeesAlike u row) (m : Marker) :
    u.markedMembers row.id m = t.markedMembers row.id m := by
  simp only [markedMembers, h.before, h.after, h.members]

theorem isReady_eq (h : t.SeesAlike u row)
    (supertypes : ∀ type ∈ row.declaration.supertypes, t.Agrees u type)
    (agrees : ∀ a ∈ t.visibleMembers row, ∀ type ∈ a.member.types, t.Agrees u type) :
    u.isReady row.id = t.isReady row.id := by
  rw [Bool.eq_iff_iff, isReady_iff h.before, isReady_iff h.after, h.members]
  refine and_congr ?_ ?_
  · exact forall₂_congr fun type written => by rw [(supertypes type written).knows_eq]
  · exact forall₂_congr fun a visible => forall₂_congr fun type written => by
      rw [(agrees a visible type written).knows_eq]

theorem build_eq (h : t.SeesAlike u row)
    (agrees : ∀ a ∈ t.visibleMembers row, ∀ type ∈ a.member.types, t.Agrees u type)
    (config : ScanConfig) :
    u.build config (u.candidate row) = t.build config (t.candidate row) := by
  have same : u.candidate row = t.candidate row := by
    rw [candidate, h.markedMembers_eq, h.markedMembers_eq]
    rfl
  have marked : ∀ m, ∀ x ∈ t.markedMembers row.id m, ∀ type ∈ x.types, t.Agrees u type := by
    intro m x listed type written
    obtain ⟨a, visible, _, rfl⟩ := (mem_markedMembers_iff h.before).mp listed
    exact agrees a visible type written
  rw [same]
  exact build_eq_of_agrees (marked .uiState) (marked .uiAction) config

end SeesAlike

end Table

end WrapperGen
