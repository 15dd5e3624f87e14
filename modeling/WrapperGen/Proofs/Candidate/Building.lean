import WrapperGen.Proofs.Candidate.Labels
import WrapperGen.Proofs.Table.Frame
import WrapperGen.Proofs.Table.OwnMembers

namespace WrapperGen

/-- A function, which may be offered as an action; a property has no parameters to count. -/
def Member.isFunction (m : Member) : Bool := m.arity.isSome

namespace Table

variable {t : Table} {config : ScanConfig} {owner : String} {m : Member} {c : Candidate}

/-! ## State -/

/-- The member is a property whose type stands for one of the configured containers and is written
with one argument, a type that stands for the value. -/
def HoldsState (t : Table) (config : ScanConfig) (m : Member) (value : ResolvedType) : Prop :=
  ∃ type container argument, m.form = .property type ∧ t.resolveType type = some container ∧
    container.qualifiedName ∈ config.stateContainers ∧ type.args = [.type argument] ∧
    t.resolveType argument = some value

/-- The rejections of a type whose state is a single member, each with what is wrong with it. -/
inductive RefusesState (t : Table) (config : ScanConfig) (owner : String) (m : Member) :
    Rejection → Prop
  | function {params : List Param} (form : m.form = .function params) :
    RefusesState t config owner m (.invalidStateShape owner m.name .function)
  | unresolved {type : TypeRef} (form : m.form = .property type)
    (unknown : t.resolveType type = none) :
    RefusesState t config owner m (.invalidStateShape owner m.name (.unresolved type))
  | other {type : TypeRef} {container : ResolvedType} (form : m.form = .property type)
    (found : t.resolveType type = some container)
    (foreign : container.qualifiedName ∉ config.stateContainers) :
    RefusesState t config owner m
      (.invalidStateShape owner m.name (.other container.qualifiedName))
  | manyArguments {type : TypeRef} {container : ResolvedType} (form : m.form = .property type)
    (found : t.resolveType type = some container)
    (configured : container.qualifiedName ∈ config.stateContainers)
    (many : 2 ≤ type.args.length) :
    RefusesState t config owner m (.invalidStateShape owner m.name
      (.manyArguments container.qualifiedName type.args.length))
  | noArgument {type : TypeRef} {container : ResolvedType} (form : m.form = .property type)
    (found : t.resolveType type = some container)
    (configured : container.qualifiedName ∈ config.stateContainers)
    (bare : type.args = [] ∨ type.args = [.star]) :
    RefusesState t config owner m (.missingStateTypeArgument owner m.name)
  | unknownArgument {type argument : TypeRef} {container : ResolvedType}
    (form : m.form = .property type) (found : t.resolveType type = some container)
    (configured : container.qualifiedName ∈ config.stateContainers)
    (single : type.args = [.type argument]) (unknown : t.resolveType argument = none) :
    RefusesState t config owner m (.missingStateTypeArgument owner m.name)

theorem HoldsState.buildState_eq {value : ResolvedType} (holds : t.HoldsState config m value)
    (owner : String) :
    t.buildState config owner [m] = .ok (some ⟨m.name, value.simpleName⟩) := by
  obtain ⟨type, container, argument, form, found, configured, single, known⟩ := holds
  have args : container.args = [.type argument] := (args_of_resolveType found).trans single
  simp only [buildState, form, found, configured, not_true_eq_false, ↓reduceIte, args, known]

theorem RefusesState.buildState_eq {r : Rejection} (refuses : t.RefusesState config owner m r) :
    t.buildState config owner [m] = .error r := by
  cases refuses with
  | function form => simp only [buildState, form]
  | unresolved form unknown => simp only [buildState, form, unknown]
  | other form found foreign => simp only [buildState, form, found, foreign, not_false_eq_true,
      ↓reduceIte]
  | manyArguments form found configured many =>
    have args := args_of_resolveType found
    rw [← args] at many ⊢
    simp only [buildState, form, found, configured, not_true_eq_false, ↓reduceIte]
    split
    next none => simp [none] at many
    next star => simp [star] at many
    next single => simp [single] at many
    next => rfl
  | noArgument form found configured bare =>
    have args := args_of_resolveType found
    rw [← args] at bare
    rcases bare with none | star
    · simp only [buildState, form, found, configured, not_true_eq_false, ↓reduceIte, none]
    · simp only [buildState, form, found, configured, not_true_eq_false, ↓reduceIte, star]
  | unknownArgument form found configured single unknown =>
    have args := (args_of_resolveType found).trans single
    simp only [buildState, form, found, configured, not_true_eq_false, ↓reduceIte, args, unknown]

/-- A single member holds the state, or there is a reason why it does not. -/
theorem holdsState_or_refusesState (t : Table) (config : ScanConfig) (owner : String) (m : Member) :
    (∃ value, t.HoldsState config m value) ∨ ∃ r, t.RefusesState config owner m r := by
  cases form : m.form with
  | function params => exact .inr ⟨_, .function form⟩
  | property type =>
    cases found : t.resolveType type with
    | none => exact .inr ⟨_, .unresolved form found⟩
    | some container =>
      by_cases configured : container.qualifiedName ∈ config.stateContainers
      · rcases args : type.args with _ | ⟨_ | argument, _ | ⟨second, rest⟩⟩
        · exact .inr ⟨_, .noArgument form found configured (.inl args)⟩
        · exact .inr ⟨_, .noArgument form found configured (.inr args)⟩
        · exact .inr ⟨_, .manyArguments form found configured (by simp [args])⟩
        · cases known : t.resolveType argument with
          | none => exact .inr ⟨_, .unknownArgument form found configured args known⟩
          | some value =>
            exact .inl ⟨value, type, container, argument, form, found, configured, args, known⟩
        · exact .inr ⟨_, .manyArguments form found configured (by simp [args])⟩
      · exact .inr ⟨_, .other form found configured⟩

theorem buildState_single_eq_error_iff {r : Rejection} :
    t.buildState config owner [m] = .error r ↔ t.RefusesState config owner m r := by
  refine ⟨fun refused => ?_, RefusesState.buildState_eq⟩
  obtain ⟨value, holds⟩ | ⟨r', refuses⟩ := t.holdsState_or_refusesState config owner m
  · rw [holds.buildState_eq owner] at refused
    cases refused
  · rw [refuses.buildState_eq] at refused
    cases refused
    exact refuses

theorem RefusesState.eq_or_eq {r : Rejection} (refuses : t.RefusesState config owner m r) :
    (∃ found, r = .invalidStateShape owner m.name found) ∨
      r = .missingStateTypeArgument owner m.name := by
  cases refuses
  case noArgument | unknownArgument => exact .inr rfl
  all_goals exact .inl ⟨_, rfl⟩

theorem buildState_of_many {members : List Member} (many : 2 ≤ members.length) :
    t.buildState config owner members =
      .error (.multipleStateMarkers owner (members.map Member.name)) := by
  rcases members with _ | ⟨_, _ | _⟩
  · simp at many
  · simp at many
  · rfl

/-! ## Actions -/

/-- The simple name of what a type stands for, or the one written if it stands for nothing. -/
def shownName (t : Table) (type : TypeRef) : String :=
  (t.resolveType type).elim type.simpleName (·.simpleName)

/-- The action bears the name of the function and takes one argument for each parameter, in the
order declared. -/
def Offers (t : Table) (m : Member) (a : ActionEntry) : Prop :=
  ∃ params, m.form = .function params ∧ a.function = m.name ∧
    a.params = params.mapIdx fun i p => ⟨p.labelAt i, t.shownName p.type⟩

theorem buildParam_eq (t : Table) (index : Nat) (p : Param) :
    t.buildParam index p = ⟨p.labelAt index, t.shownName p.type⟩ := by
  rw [← t.label_buildParam index p, shownName]
  cases found : t.resolveType p.type <;> simp [buildParam, found]

/-- The functions become actions, in order; what else is marked as one is passed over. -/
theorem forall₂_offers (t : Table) (members : List Member) :
    List.Forall₂ t.Offers (members.filter Member.isFunction)
      (members.filterMap t.buildAction?) := by
  induction members with
  | nil => exact .nil
  | cons m rest ih =>
    cases form : m.form with
    | property type =>
      have passed : m.isFunction = false := by simp [Member.isFunction, Member.arity, form]
      have none : t.buildAction? m = none := by simp only [buildAction?, form]
      rwa [List.filter_cons_of_neg (by simp [passed]), List.filterMap_cons_none none]
    | function params =>
      have chosen : m.isFunction = true := by simp [Member.isFunction, Member.arity, form]
      have some : t.buildAction? m = some ⟨m.name, params.mapIdx t.buildParam⟩ := by
        simp only [buildAction?, form]
      rw [List.filter_cons_of_pos chosen, List.filterMap_cons_some some]
      refine .cons ⟨params, form, rfl, ?_⟩ ih
      exact List.mapIdx_eq_mapIdx_iff.mpr fun i _ => t.buildParam_eq i _

/-! ## The entry -/

theorem build_of_other_kind (other : c.symbol.kind.isClassLike = false) :
    t.build config c = .error (.invalidMarkerTarget c.symbol.displayName c.symbol.kind) := by
  simp only [build, other, Bool.not_false, ↓reduceIte]

theorem build_of_unnamed (classLike : c.symbol.kind.isClassLike = true)
    (unnamed : c.symbol.qualifiedName = none) :
    t.build config c = .error (.unresolvableSymbol c.symbol.simpleName) := by
  simp only [build, classLike, Bool.not_true, Bool.false_eq_true, ↓reduceIte, unnamed]

/-- A declaration that may be a view-model and has a qualified name is built from its state and its
actions. -/
theorem build_of_named {q : String} (classLike : c.symbol.kind.isClassLike = true)
    (named : c.symbol.qualifiedName = some q) :
    t.build config c = (t.buildState config q c.states).map fun state =>
      ⟨q, c.symbol.simpleName, state, c.actions.filterMap t.buildAction?⟩ := by
  simp only [build, classLike, Bool.not_true, Bool.false_eq_true, ↓reduceIte, named]
  cases t.buildState config q c.states <;> rfl

theorem build_eq_error_of_named {q : String} (classLike : c.symbol.kind.isClassLike = true)
    (named : c.symbol.qualifiedName = some q) {r : Rejection} :
    t.build config c = .error r ↔ t.buildState config q c.states = .error r := by
  rw [build_of_named classLike named]
  cases t.buildState config q c.states <;> simp [Except.map]

/-- A declaration is rejected for its kind or for its missing name, or it may be a view-model and
has a qualified name. -/
theorem build_cases (t : Table) (config : ScanConfig) (c : Candidate) :
    t.build config c = .error (.invalidMarkerTarget c.symbol.displayName c.symbol.kind) ∨
      t.build config c = .error (.unresolvableSymbol c.symbol.simpleName) ∨
      ∃ q, c.symbol.kind.isClassLike = true ∧ c.symbol.qualifiedName = some q := by
  cases classLike : c.symbol.kind.isClassLike with
  | false => exact .inl (build_of_other_kind classLike)
  | true =>
    cases named : c.symbol.qualifiedName with
    | none => exact .inr (.inl (build_of_unnamed classLike named))
    | some q => exact .inr (.inr ⟨q, rfl, rfl⟩)

/-- Where a rejection comes from: the kind, the missing name, several states or a single one. -/
theorem build_eq_error_cases {r : Rejection} (rejected : t.build config c = .error r) :
    r = .invalidMarkerTarget c.symbol.displayName c.symbol.kind ∨
      r = .unresolvableSymbol c.symbol.simpleName ∨
      ∃ q, c.symbol.kind.isClassLike = true ∧ c.symbol.qualifiedName = some q ∧
        (r = .multipleStateMarkers q (c.states.map Member.name) ∨
          ∃ m, c.states = [m] ∧ t.RefusesState config q m r) := by
  obtain kind | name | ⟨q, classLike, named⟩ := t.build_cases config c
  · exact .inl (Except.error.inj (rejected.symm.trans kind))
  · exact .inr (.inl (Except.error.inj (rejected.symm.trans name)))
  · have refused := (build_eq_error_of_named classLike named).mp rejected
    refine .inr (.inr ⟨q, classLike, named, ?_⟩)
    rcases states : c.states with _ | ⟨m, _ | ⟨second, rest⟩⟩
    · rw [states] at refused
      cases refused
    · rw [states] at refused
      exact .inr ⟨m, rfl, buildState_single_eq_error_iff.mp refused⟩
    · rw [states, buildState_of_many (by simp)] at refused
      cases refused
      exact .inl rfl

theorem of_build_eq_ok {e : Entry} (built : t.build config c = .ok e) :
    c.symbol.qualifiedName = some e.className ∧ e.simpleName = c.symbol.simpleName ∧
      List.Forall₂ t.Offers (c.actions.filter Member.isFunction) e.actions := by
  obtain kind | name | ⟨q, classLike, named⟩ := t.build_cases config c
  · rw [kind] at built
    cases built
  · rw [name] at built
    cases built
  · rw [build_of_named classLike named] at built
    cases state : t.buildState config q c.states with
    | error r =>
      rw [state] at built
      cases built
    | ok state' =>
      rw [state] at built
      cases built
      exact ⟨named, rfl, t.forall₂_offers c.actions⟩

theorem exists_row_of_mem_candidates (scanned : c ∈ t.candidates) :
    ∃ row, t.row? c.symbol.id = some row ∧ c = t.candidate row := by
  rw [candidates_eq] at scanned
  obtain ⟨row, chosen, rfl⟩ := List.mem_map.mp scanned
  exact ⟨row, row?_eq_some_iff.mpr ⟨(List.mem_filter.mp chosen).1, rfl⟩, rfl⟩

theorem candidate_mem_candidates {row : Row} (mem : row ∈ t.rows)
    (marked : Marker.viewModel.isAmong row.declaration.annotations = true) :
    t.candidate row ∈ t.candidates := by
  rw [candidates_eq]
  exact List.mem_map_of_mem (List.mem_filter.mpr ⟨mem, marked⟩)

theorem states_candidate {row : Row} (found : t.row? row.id = some row) :
    (t.candidate row).states = Marker.uiState.select (t.visibleMembers row) :=
  markedMembers_eq_select found .uiState

theorem actions_candidate {row : Row} (found : t.row? row.id = some row) :
    (t.candidate row).actions = Marker.uiAction.select (t.visibleMembers row) :=
  markedMembers_eq_select found .uiAction

/-- What a marked declaration becomes depends on the members that it sees: without a state marker it
has no state, with several it is rejected, and with a single one that member holds the state or is
the reason for a rejection. Its actions are the functions that it sees marked so. -/
theorem state_and_actions_of_scanned {q : String} (scanned : c ∈ t.candidates)
    (classLike : c.symbol.kind.isClassLike = true) (named : c.symbol.qualifiedName = some q)
    (config : ScanConfig) :
    ∃ row, t.row? c.symbol.id = some row ∧ row.symbol = c.symbol ∧
      let states := Marker.uiState.select (t.visibleMembers row)
      let actions := Marker.uiAction.select (t.visibleMembers row)
      (states = [] → ∃ e, t.build config c = .ok e ∧ e.state = none) ∧
        (2 ≤ states.length →
          t.build config c = .error (.multipleStateMarkers q (states.map Member.name))) ∧
        (∀ m, states = [m] →
          (∀ value, t.HoldsState config m value →
            ∃ e, t.build config c = .ok e ∧ e.state = some ⟨m.name, value.simpleName⟩) ∧
          ((∀ value, ¬t.HoldsState config m value) → ∃ r, t.build config c = .error r ∧
            ((∃ found, r = .invalidStateShape q m.name found) ∨
              r = .missingStateTypeArgument q m.name))) ∧
        ∀ e, t.build config c = .ok e → e.className = q ∧ e.simpleName = c.symbol.simpleName ∧
          List.Forall₂ t.Offers (actions.filter Member.isFunction) e.actions := by
  obtain ⟨row, found, rfl⟩ := exists_row_of_mem_candidates scanned
  have built : t.build config (t.candidate row) = _ := build_of_named classLike named
  have rejected : ∀ {r}, t.build config (t.candidate row) = .error r ↔ _ :=
    build_eq_error_of_named classLike named
  rw [states_candidate found] at built rejected
  refine ⟨row, found, rfl, ?_, ?_, ?_, ?_⟩
  · intro none
    rw [none] at built
    exact ⟨_, built, rfl⟩
  · intro many
    exact rejected.mpr (buildState_of_many many)
  · intro m single
    rw [single] at built rejected
    constructor
    · intro value holds
      rw [holds.buildState_eq q] at built
      exact ⟨_, built, rfl⟩
    · intro holdsNothing
      obtain ⟨value, holds⟩ | ⟨r, refuses⟩ := t.holdsState_or_refusesState config q m
      · exact absurd holds (holdsNothing value)
      · exact ⟨r, rejected.mpr refuses.buildState_eq, refuses.eq_or_eq⟩
  · intro e ok
    obtain ⟨named', simpleName, offers⟩ := of_build_eq_ok ok
    have className : e.className = q := Option.some.inj (named'.symm.trans named)
    exact ⟨className, simpleName, actions_candidate found ▸ offers⟩

/-- A view-model that inherits its state and an action. It hides another state by a property of its
own and marks a property as an action. -/
def heir : Table :=
  let flow : TypeRef → TypeRef := fun value => .mk "StateFlow" [.type value] false
  let screen := ((((Declaration.ofClass "a.Screen").marked .viewModel).extending
    (.mk "Base" [] false)).withMember
    ⟨"spare", .property (flow (.mk "Int" [] false))⟩ []).withMember
    ⟨"busy", .property (.mk "Boolean" [] false)⟩ [.uiAction]
  let base := (((Declaration.ofClass "a.Base").withMember
    ⟨"spare", .property (flow (.mk "Int" [] false))⟩ [.uiState]).withMember
    ⟨"state", .property (flow (.mk "a.Item" [] false))⟩ [.uiState]).withMember
    ⟨"go", .function [⟨none, .mk "a.Item" [] false⟩]⟩ [.uiAction]
  ((empty.declare screen).declare base).declare
    { Declaration.ofClass "a.Item" with simpleName := "Thing" }

theorem heir_built :
    let c := heir.candidate heir.rows[0]
    let go : Member := ⟨"go", .function [⟨none, .mk "a.Item" [] false⟩]⟩
    c ∈ heir.candidates ∧ c.symbol.kind.isClassLike = true ∧
      c.symbol.qualifiedName = some "a.Screen" ∧
      ∃ e, heir.build .standard c = .ok e ∧ e.className = "a.Screen" ∧
        e.state = some ⟨"state", "Thing"⟩ ∧ List.Forall₂ heir.Offers [go] e.actions := by
  intro c go
  have scanned : c ∈ heir.candidates := candidate_mem_candidates (List.getElem_mem _) (by cbv)
  obtain ⟨row, found, _, _, _, single, entry⟩ :=
    state_and_actions_of_scanned scanned rfl rfl .standard
  obtain rfl : heir.rows[0] = row := Option.some.inj found
  let item : ResolvedType := ⟨"a.Item", "Thing", []⟩
  have states : Marker.uiState.select (heir.visibleMembers heir.rows[0]) =
      [⟨"state", .property (.mk "StateFlow" [.type (.mk "a.Item" [] false)] false)⟩] := by cbv
  have actions : (Marker.uiAction.select (heir.visibleMembers heir.rows[0])).filter
      Member.isFunction = [go] := by cbv
  have holds : heir.HoldsState .standard
      ⟨"state", .property (.mk "StateFlow" [.type (.mk "a.Item" [] false)] false)⟩ item :=
    ⟨_, ⟨"kotlinx.coroutines.flow.StateFlow", "StateFlow", [.type (.mk "a.Item" [] false)]⟩, _,
      rfl, by cbv, by decide, rfl, by cbv⟩
  obtain ⟨e, built, state⟩ := (single _ states).1 item holds
  obtain ⟨className, _, offers⟩ := entry e built
  exact ⟨scanned, rfl, rfl, e, built, className, state, actions ▸ offers⟩

end Table

end WrapperGen
