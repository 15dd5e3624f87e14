import Mathlib.Data.Fintype.EquivFin
import WrapperGen.Proofs.Table.Growth

namespace WrapperGen

/-- A class of one property, which carries the marker of a state. -/
def Declaration.withState (id qualifiedName simpleName state : String) : Declaration where
  id := some id
  kind := .classType
  qualifiedName := some qualifiedName
  simpleName := simpleName
  annotations := []
  supertypes := []
  members := [⟨[Marker.uiState.shortName], ⟨state, .property (.mk qualifiedName [] false)⟩⟩]

namespace Table

variable {t u : Table}

theorem isReady_iff {id : String} {row : Row} (found : t.row? id = some row) :
    t.isReady id = true ↔ (∀ s ∈ row.declaration.supertypes, t.knows s = true) ∧
      ∀ m ∈ t.visibleMembers row, ∀ type ∈ m.member.types, t.knows type = true := by
  simp only [isReady, found, Bool.and_eq_true, List.all_eq_true]

theorem resolves_of_knows {type : TypeRef} (known : t.knows type = true) :
    t.resolves type.name = true :=
  List.all_eq_true.mp known _ type.name_mem_names

theorem mem_markedMembers_iff {id : String} {row : Row} (found : t.row? id = some row) {m : Marker}
    {x : Member} : x ∈ t.markedMembers id m ↔
      ∃ a ∈ t.visibleMembers row, m.isAmong a.annotations = true ∧ a.member = x := by
  simp only [markedMembers, found, List.mem_map, List.mem_filter, and_assoc]

/-- A visible member is written in a declaration from which the row inherits. -/
theorem exists_inherits_of_mem_visibleMembers {row : Row} (mem : row ∈ t.rows)
    {a : AnnotatedMember} (visible : a ∈ t.visibleMembers row) :
    ∃ r, t.Inherits row r ∧ a ∈ r.declaration.members := by
  obtain ⟨r, met, own⟩ := List.mem_flatMap.mp ((firstOfEach_sublist _ _).subset visible)
  exact ⟨r, (mem_ancestry_iff mem).mp met, own⟩

theorem exists_row_of_mem_visibleMembers {row : Row} (mem : row ∈ t.rows) {a : AnnotatedMember}
    (visible : a ∈ t.visibleMembers row) : ∃ r ∈ t.rows, a ∈ r.declaration.members := by
  obtain ⟨r, inherits, own⟩ := exists_inherits_of_mem_visibleMembers mem visible
  exact ⟨r, inherits.mem_rows mem, own⟩

/-- Of the members that are inherited some member of each shape is visible. -/
theorem exists_visible_of_mem_ancestry {row r : Row} {a : AnnotatedMember}
    (inherits : r ∈ t.ancestry row) (mem : a ∈ r.declaration.members) :
    ∃ b ∈ t.visibleMembers row, b.member.shape = a.member.shape := by
  have shapes := (mem_map_firstOfEach (fun a : AnnotatedMember => a.member.shape)
    ((t.ancestry row).flatMap (·.declaration.members)) a.member.shape).mpr
    (List.mem_map_of_mem (List.mem_flatMap.mpr ⟨r, inherits, mem⟩))
  exact List.mem_map.mp shapes

theorem KnowsAncestry.settled {row : Row} {id : String} (known : t.KnowsAncestry row)
    (found : t.row? id = some row) (ready : t.isReady id = true) (growth : t.Grows u) :
    u.isReady id = true ∧ ∀ m, u.markedMembers id m = t.markedMembers id m := by
  obtain ⟨_, found', members, types⟩ := known.grows found growth
  obtain ⟨supertypes, memberTypes⟩ := (isReady_iff found).mp ready
  refine ⟨(isReady_iff found').mpr ⟨?_, ?_⟩, ?_⟩
  · exact fun s written => types s (supertypes s written)
  · rw [members]
    exact fun a visible type written => types type (memberTypes a visible type written)
  · intro m
    simp only [markedMembers, found, found', members]

/-- An unknown supertype anywhere in the ancestry can be declared with a state that the row then
inherits. -/
theorem exists_lacks_markedMembers_ne {id : String} {row r : Row} (found : t.row? id = some row)
    (inherits : t.Inherits row r) {s : TypeRef} (written : s ∈ r.declaration.supertypes)
    (unknown : t.resolves s.name = false) :
    ∃ d, t.Lacks d ∧ (t.declare d).markedMembers id .uiState ≠ t.markedMembers id .uiState := by
  obtain ⟨fresh, new⟩ := Infinite.exists_notMem_finset (t.rows.map Row.id).toFinset
  obtain ⟨state, unused⟩ := Infinite.exists_notMem_finset
    (t.rows.flatMap fun r => r.declaration.members.map (·.member.name)).toFinset
  rw [List.mem_toFinset] at new unused
  have noMember : ∀ r ∈ t.rows, ∀ a ∈ r.declaration.members, a.member.name ≠ state :=
    fun r mem a own named =>
      unused (List.mem_flatMap.mpr ⟨r, mem, named ▸ List.mem_map_of_mem own⟩)
  let d := Declaration.withState fresh s.name s.name state
  have lacks : t.Lacks d := ⟨new, unknown, fun q named => Option.some.inj named ▸ unknown⟩
  refine ⟨d, lacks, fun same => ?_⟩
  have mem := (mem_of_row? found).1
  have mem' := lacks.mem_rows_declare mem
  have met : ⟨fresh, d⟩ ∈ (t.declare d).ancestry row :=
    (mem_ancestry_iff mem').mpr
      ((lacks.inherits_declare inherits).tail (lacks.mem_parents_of_named written rfl))
  obtain ⟨a, visible, shape⟩ := exists_visible_of_mem_ancestry met List.mem_cons_self
  have name : a.member.name = state := congrArg Prod.fst shape
  have marked : Marker.uiState.isAmong a.annotations = true := by
    obtain ⟨r, here, own⟩ := exists_row_of_mem_visibleMembers mem' visible
    rw [lacks.rows_declare] at here
    obtain before | last := List.mem_append.mp here
    · exact absurd name (noMember r before a own)
    · rw [List.mem_singleton.mp last] at own
      rw [List.mem_singleton.mp own]
      change Marker.uiState.isAmong [Marker.uiState.shortName] = true
      decide
  have gained := (mem_markedMembers_iff (lacks.row?_declare found)).mpr ⟨a, visible, marked, rfl⟩
  rw [same] at gained
  obtain ⟨b, visible', _, equal⟩ := (mem_markedMembers_iff found).mp gained
  obtain ⟨r, here, own⟩ := exists_row_of_mem_visibleMembers mem visible'
  exact noMember r here b own ((congrArg Member.name equal).trans name)

/-- Readiness is about the supertypes that the type itself writes. What the type inherits is settled
just if the supertypes of all declarations above it are known too. -/
theorem ready_members_settled_iff {id : String} {row : Row} (ready : t.isReady id = true)
    (found : t.row? id = some row) :
    (∀ s ∈ row.declaration.supertypes, t.knows s = true) ∧
      ((∀ u, t.Grows u →
          u.isReady id = true ∧ ∀ m, u.markedMembers id m = t.markedMembers id m) ↔
        ∀ r, t.Inherits row r → r ≠ row →
          ∀ s ∈ r.declaration.supertypes, t.resolves s.name = true) := by
  have own := ((isReady_iff found).mp ready).1
  refine ⟨own, ?_, ?_⟩
  · intro settled r inherits _ s written
    by_contra unknown
    obtain ⟨d, lacks, gained⟩ := exists_lacks_markedMembers_ne found inherits written
      (Bool.not_eq_true _ ▸ unknown)
    exact gained ((settled _ (.single ⟨d, lacks, rfl⟩)).2 .uiState)
  · intro above u growth
    have known : t.KnowsAncestry row := by
      intro r inherits s written
      by_cases itself : r = row
      · exact resolves_of_knows (own s (itself ▸ written))
      · exact above r inherits itself s written
    exact known.settled found ready growth

/-- A view-model above which one declaration is still missing. -/
def rootless : Table :=
  (empty.declare (((Declaration.ofClass "a.Screen").marked .viewModel).extending
    (.mk "a.Base" [] false))).declare
    ((Declaration.ofClass "a.Base").extending (.mk "a.Root" [] false))

def rooted : Table := rootless.declare (.withState "a.Root" "a.Root" "Root" "state")

/-- The view-model is ready although its ancestor writes an unknown supertype, and it gains a state
as soon as that supertype is declared. -/
theorem rootless_ready_gains_state :
    rootless.isReady "a.Screen" = true ∧
      (∃ row base, rootless.row? "a.Screen" = some row ∧ rootless.Inherits row base ∧
        ∃ s ∈ base.declaration.supertypes, rootless.knows s = false) ∧
      rootless.markedMembers "a.Screen" .uiState = [] ∧
      rooted.markedMembers "a.Screen" .uiState =
        [⟨"state", .property (.mk "a.Root" [] false)⟩] := by
  refine ⟨by cbv, ⟨_, _, rfl, .single (List.mem_singleton_self _), ?_⟩, by cbv, by cbv⟩
  exact ⟨_, List.mem_singleton_self _, by cbv⟩

/-- Once everything above the view-model is declared, its state stays. -/
theorem rooted_screen_settled : rooted.isReady "a.Screen" = true ∧ ∀ u, rooted.Grows u →
    u.markedMembers "a.Screen" .uiState = [⟨"state", .property (.mk "a.Root" [] false)⟩] := by
  have ready : rooted.isReady "a.Screen" = true := by cbv
  refine ⟨ready, fun u growth => ?_⟩
  have found : rooted.row? "a.Screen" = some rooted.rows[0] := rfl
  have above : ∀ r, rooted.Inherits rooted.rows[0] r → r ≠ rooted.rows[0] →
      ∀ s ∈ r.declaration.supertypes, rooted.resolves s.name = true := by
    intro r inherits _ s written
    have known : ∀ r ∈ rooted.rows, ∀ s ∈ r.declaration.supertypes,
        rooted.resolves s.name = true := by decide +kernel
    exact known r (inherits.mem_rows (mem_of_row? found).1) s written
  have kept := ((ready_members_settled_iff ready found).2.mpr above u growth).2 .uiState
  exact kept.trans (by cbv)

end Table

end WrapperGen
