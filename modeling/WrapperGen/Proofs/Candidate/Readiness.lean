import WrapperGen.Proofs.Candidate.Building

namespace WrapperGen.Table

variable {t : Table} {config : ScanConfig} {c : Candidate} {m : Member} {type : TypeRef}

/-! ## Types that are known -/

theorem exists_resolveType_of_knows (known : t.knows type = true) :
    ∃ r, t.resolveType type = some r := by
  obtain ⟨n, resolved⟩ := resolves_iff.mp (resolves_of_knows known)
  exact ⟨_, by rw [resolveType, resolved]; rfl⟩

theorem knows_of_mem_args {argument : TypeRef} (known : t.knows type = true)
    (mem : .type argument ∈ type.args) : t.knows argument = true := by
  have all := List.all_eq_true.mp known
  exact List.all_eq_true.mpr fun name written =>
    all name (TypeRef.names_subset_of_mem_args mem written)

/-- All types are known that are written in the members from which a ready declaration is built:
these are visible, and readiness asks for every visible member. -/
theorem knows_of_isReady (scanned : c ∈ t.candidates) (ready : t.isReady c.symbol.id = true)
    (mem : m ∈ c.states ∨ m ∈ c.actions) : ∀ type ∈ m.types, t.knows type = true := by
  obtain ⟨row, found, rfl⟩ := exists_row_of_mem_candidates scanned
  obtain ⟨_, members⟩ := (isReady_iff found).mp ready
  have marked : ∀ marker, m ∈ t.markedMembers row.id marker →
      ∀ type ∈ m.types, t.knows type = true := by
    intro marker listed
    obtain ⟨a, visible, _, rfl⟩ := (mem_markedMembers_iff found).mp listed
    exact members a visible
  obtain state | action := mem
  · exact marked .uiState state
  · exact marked .uiAction action

/-! ## What can still be wrong -/

/-- A member of known types is refused as state for what it is, and not for a name. -/
theorem RefusesState.of_knows {owner : String} {r : Rejection}
    (known : ∀ type ∈ m.types, t.knows type = true) (refuses : t.RefusesState config owner m r) :
    (∀ owner' property type, r ≠ .invalidStateShape owner' property (.unresolved type)) ∧
      (r = .missingStateTypeArgument owner m.name → ∃ type container,
        m.form = .property type ∧ t.resolveType type = some container ∧
          container.qualifiedName ∈ config.stateContainers ∧
          (type.args = [] ∨ type.args = [.star])) := by
  have written : ∀ {type}, m.form = .property type → t.knows type = true := by
    intro type form
    refine known type ?_
    rw [Member.types, form]
    exact List.mem_singleton_self type
  cases refuses with
  | function form => exact ⟨by rintro _ _ _ ⟨⟩, by rintro ⟨⟩⟩
  | unresolved form unknown =>
    obtain ⟨r, resolved⟩ := exists_resolveType_of_knows (written form)
    rw [unknown] at resolved
    cases resolved
  | other form found foreign => exact ⟨by rintro _ _ _ ⟨⟩, by rintro ⟨⟩⟩
  | manyArguments form found configured many => exact ⟨by rintro _ _ _ ⟨⟩, by rintro ⟨⟩⟩
  | noArgument form found configured bare =>
    exact ⟨by rintro _ _ _ ⟨⟩, fun _ => ⟨_, _, form, found, configured, bare⟩⟩
  | unknownArgument form found configured single unknown =>
    have mem := single ▸ List.mem_singleton_self _
    obtain ⟨r, resolved⟩ := exists_resolveType_of_knows (knows_of_mem_args (written form) mem)
    rw [unknown] at resolved
    cases resolved

/-- Every parameter of the function is shown by the simple name of the type that it stands for. -/
def ShowsKnown (t : Table) (m : Member) (a : ActionEntry) : Prop :=
  ∃ params, m.form = .function params ∧ a.function = m.name ∧
    List.Forall₂ (fun p shown => ∃ r, t.resolveType p.type = some r ∧ shown.typeName = r.simpleName)
      params a.params

theorem Offers.showsKnown {a : ActionEntry} (offers : t.Offers m a)
    (known : ∀ type ∈ m.types, t.knows type = true) : t.ShowsKnown m a := by
  obtain ⟨params, form, name, shown⟩ := offers
  refine ⟨params, form, name, ?_⟩
  rw [shown, List.forall₂_iff_get]
  refine ⟨List.length_mapIdx.symm, fun i inside _ => ?_⟩
  have written : params[i].type ∈ m.types := by
    rw [Member.types, form]
    exact List.mem_map_of_mem (List.getElem_mem inside)
  obtain ⟨r, resolved⟩ := exists_resolveType_of_knows (known _ written)
  refine ⟨r, resolved, ?_⟩
  simp [shownName, resolved]

/-- A declaration that is ready is not rejected for a type that is unknown: no container is
unresolved, the argument of the state is missing only where none is written, and every parameter of
an action bears the simple name of what its type stands for. -/
theorem ready_type_built_from_known (scanned : c ∈ t.candidates)
    (ready : t.isReady c.symbol.id = true) (config : ScanConfig) :
    (∀ owner property type,
        t.build config c ≠ .error (.invalidStateShape owner property (.unresolved type))) ∧
      (∀ owner property, t.build config c = .error (.missingStateTypeArgument owner property) ↔
        c.symbol.kind.isClassLike = true ∧ c.symbol.qualifiedName = some owner ∧
          ∃ m type container, c.states = [m] ∧ m.name = property ∧ m.form = .property type ∧
            t.resolveType type = some container ∧
            container.qualifiedName ∈ config.stateContainers ∧
            (type.args = [] ∨ type.args = [.star])) ∧
      ∀ e, t.build config c = .ok e →
        List.Forall₂ t.ShowsKnown (c.actions.filter Member.isFunction) e.actions := by
  have known : ∀ m, m ∈ c.states ∨ m ∈ c.actions → ∀ type ∈ m.types, t.knows type = true :=
    fun m mem => knows_of_isReady scanned ready mem
  have stateKnown : ∀ {m}, c.states = [m] → ∀ type ∈ m.types, t.knows type = true := by
    intro m states
    exact known m (.inl (states ▸ List.mem_singleton_self m))
  refine ⟨fun owner property type rejected => ?_, fun owner property => ⟨?_, ?_⟩, ?_⟩
  · obtain kind | name | ⟨q, _, _, several | ⟨m, states, refuses⟩⟩ := build_eq_error_cases rejected
    · cases kind
    · cases name
    · cases several
    · exact (refuses.of_knows (stateKnown states)).1 owner property type rfl
  · intro rejected
    obtain kind | name | ⟨q, classLike, named, several | ⟨m, states, refuses⟩⟩ :=
      build_eq_error_cases rejected
    · cases kind
    · cases name
    · cases several
    · obtain impossible | same := refuses.eq_or_eq
      · obtain ⟨_, same⟩ := impossible
        cases same
      · cases same
        obtain ⟨type, container, form, found, configured, bare⟩ :=
          (refuses.of_knows (stateKnown states)).2 rfl
        exact ⟨classLike, named, m, type, container, states, rfl, form, found, configured, bare⟩
  · rintro ⟨classLike, named, m, type, container, states, rfl, form, found, configured, bare⟩
    rw [build_eq_error_of_named classLike named, states]
    exact (RefusesState.noArgument form found configured bare).buildState_eq
  · intro e built
    obtain ⟨_, _, offers⟩ := of_build_eq_ok built
    have actions : ∀ m ∈ c.actions.filter Member.isFunction, ∀ type ∈ m.types,
        t.knows type = true := fun m chosen => known m (.inr (List.mem_filter.mp chosen).1)
    have both := (List.forall₂_and_left _ _).mpr ⟨actions, offers⟩
    exact both.imp fun m a ⟨types, offered⟩ => offered.showsKnown types

/-- Beside the view-model that inherits its state one whose state is written with a star. -/
def starred : Table :=
  heir.declare (((Declaration.ofClass "a.Panel").marked .viewModel).withMember
    ⟨"state", .property (.mk "StateFlow" [.star] false)⟩ [.uiState])

/-- The action shows the simple name of the declaration, which is not the one written. -/
theorem starred_built_from_known :
    let screen := starred.candidate starred.rows[0]
    let panel := starred.candidate starred.rows[3]
    let go : Member := ⟨"go", .function [⟨none, .mk "a.Item" [] false⟩]⟩
    (screen ∈ starred.candidates ∧ starred.isReady "a.Screen" = true ∧
      ∃ e, starred.build .standard screen = .ok e ∧ List.Forall₂ starred.ShowsKnown [go] e.actions ∧
        e.actions = [⟨"go", [⟨"p0", "Thing"⟩]⟩]) ∧
      panel ∈ starred.candidates ∧ starred.isReady "a.Panel" = true ∧
      starred.build .standard panel = .error (.missingStateTypeArgument "a.Panel" "state") := by
  intro screen panel go
  have screenScanned : screen ∈ starred.candidates :=
    candidate_mem_candidates (List.getElem_mem _) (by cbv)
  have panelScanned : panel ∈ starred.candidates :=
    candidate_mem_candidates (List.getElem_mem _) (by cbv)
  have screenReady : starred.isReady "a.Screen" = true := by cbv
  have panelReady : starred.isReady "a.Panel" = true := by cbv
  obtain ⟨_, _, shows⟩ := ready_type_built_from_known screenScanned screenReady .standard
  obtain ⟨_, missing, _⟩ := ready_type_built_from_known panelScanned panelReady .standard
  have built : starred.build .standard screen =
      .ok ⟨"a.Screen", "Screen", some ⟨"state", "Thing"⟩, [⟨"go", [⟨"p0", "Thing"⟩]⟩]⟩ := by cbv
  have functions : screen.actions.filter Member.isFunction = [go] := by cbv
  refine ⟨⟨screenScanned, screenReady, _, built, functions ▸ shows _ built, rfl⟩,
    panelScanned, panelReady, ?_⟩
  have states : panel.states = [⟨"state", .property (.mk "StateFlow" [.star] false)⟩] := by cbv
  refine (missing "a.Panel" "state").mpr ⟨rfl, rfl, _, _, ?_, states, rfl, rfl, ?_⟩
  · exact ⟨"kotlinx.coroutines.flow.StateFlow", "StateFlow", [.star]⟩
  · exact ⟨by cbv, by decide, .inr rfl⟩

end WrapperGen.Table
