import WrapperGen.Proofs.Table.Frame

namespace WrapperGen

namespace Table

variable {t : Table} {row : Row}

/-! ## Unrelated declarations -/

/-- The row or a declaration from which it inherits writes the name in a type. -/
def Writes (t : Table) (row : Row) (name : String) : Prop :=
  ∃ r, t.Inherits row r ∧ ∃ type ∈ r.declaration.types, name ∈ type.names

theorem not_writes_of_rows (mem : row ∈ t.rows) {name : String}
    (unwritten : ∀ r ∈ t.rows, ∀ type ∈ r.declaration.types, name ∉ type.names) :
    ¬t.Writes row name := by
  rintro ⟨r, inherits, type, written, named⟩
  exact unwritten r (inherits.mem_rows mem) type written named

/-- The declaration is new to the table, and the row has no use for its names. -/
structure Unrelated (t : Table) (row : Row) (d : Declaration) : Prop where
  id : d.idAt t.size ∉ t.rows.map Row.id
  qualifiedName : ∀ q, d.qualifiedName = some q → t.resolves q = false ∧ ¬t.Writes row q
  simpleName : ¬t.Writes row d.simpleName

namespace Unrelated

variable {d : Declaration}

theorem resolveName_eq (h : t.Unrelated row d) {name : String} (written : t.Writes row name) :
    (t.declare d).resolveName name = t.resolveName name := by
  refine resolveName_declare_of_ne h.id ?_ ?_
  · rintro rfl
    exact h.simpleName written
  · exact fun same => (h.qualifiedName name same).2 written

theorem agrees (h : t.Unrelated row d) {r : Row} (inherits : t.Inherits row r) {type : TypeRef}
    (written : type ∈ r.declaration.types) : t.Agrees (t.declare d) type :=
  fun _ mem => h.resolveName_eq ⟨r, inherits, type, written, mem⟩

theorem parents_eq (h : t.Unrelated row d) {r : Row} (inherits : t.Inherits row r) :
    (t.declare d).parents r = t.parents r :=
  parents_declare_of_eq h.id (fun q named => (h.qualifiedName q named).1) fun s written =>
    h.agrees inherits (List.mem_append_left _ written) s.name s.name_mem_names

theorem seesAlike (h : t.Unrelated row d) (mem : row ∈ t.rows) :
    t.SeesAlike (t.declare d) row := by
  refine .of_parents_eq mem (fun r there => ?_) fun _ inherits => h.parents_eq inherits
  exact rows_declare_of_fresh h.id ▸ List.mem_append_left _ there

end Unrelated

/-- Nothing that is answered about a type changes when a declaration comes in of which neither the
type nor anything above it writes the names. -/
theorem unrelated_declaration_ignored {d : Declaration} (mem : row ∈ t.rows)
    (unrelated : t.Unrelated row d) :
    let u := t.declare d
    u.rows = t.rows ++ [⟨d.idAt t.size, d⟩] ∧ u.row? row.id = some row ∧
      u.isReady row.id = t.isReady row.id ∧
      (∀ m, u.markedMembers row.id m = t.markedMembers row.id m) ∧
      ∀ config, u.build config (u.candidate row) = t.build config (t.candidate row) := by
  intro u
  have alike : t.SeesAlike u row := unrelated.seesAlike mem
  have supertypes : ∀ type ∈ row.declaration.supertypes, t.Agrees u type := fun type written =>
    unrelated.agrees .refl (List.mem_append_left _ written)
  have members : ∀ a ∈ t.visibleMembers row, ∀ type ∈ a.member.types, t.Agrees u type := by
    intro a visible type written
    obtain ⟨r, inherits, own⟩ := exists_inherits_of_mem_visibleMembers mem visible
    exact unrelated.agrees inherits
      (List.mem_append_right _ (List.mem_flatMap.mpr ⟨a, own, written⟩))
  exact ⟨rows_declare_of_fresh unrelated.id, alike.after, alike.isReady_eq supertypes members,
    alike.markedMembers_eq, alike.build_eq members⟩

/-- A view-model that inherits from itself by way of a declaration of which it writes the simple
name. -/
def looped : Table :=
  let state : TypeRef := .mk "StateFlow" [.type (.mk "State" [] false)] false
  let screen := (((Declaration.ofClass "a.Screen").marked .viewModel).extending
    (.mk "Base" [] false)).withMember ⟨"state", .property state⟩ [.uiState]
  let base := ((Declaration.ofClass "a.Base").extending (.mk "a.Screen" [] false)).withMember
    ⟨"go", .function [⟨none, .mk "Int" [] false⟩]⟩ [.uiAction]
  ((empty.declare screen).declare base).declare (.ofClass "a.State")

/-- A declaration that has an action of the same name as the view-model. -/
def bystander : Declaration :=
  ((Declaration.ofClass "b.Other").extending (.mk "a.Screen" [] false)).withMember
    ⟨"go", .function []⟩ [.uiAction]

theorem looped_screen_unmoved :
    let u := looped.declare bystander
    looped.Unrelated looped.rows[0] bystander ∧ u.isReady "a.Screen" = true ∧
      u.build .standard (u.candidate looped.rows[0]) =
        .ok ⟨"a.Screen", "Screen", some ⟨"state", "State"⟩, [⟨"go", [⟨"p0", "Int"⟩]⟩]⟩ := by
  intro u
  have mem : looped.rows[0] ∈ looped.rows := List.getElem_mem _
  have qualified : ∀ r ∈ looped.rows, ∀ type ∈ r.declaration.types, "b.Other" ∉ type.names := by
    decide
  have simple : ∀ r ∈ looped.rows, ∀ type ∈ r.declaration.types, "Other" ∉ type.names := by
    decide
  have unrelated : looped.Unrelated looped.rows[0] bystander := by
    refine ⟨by decide, ?_, not_writes_of_rows mem simple⟩
    rintro q ⟨⟩
    exact ⟨by cbv, not_writes_of_rows mem qualified⟩
  obtain ⟨_, _, ready, _, built⟩ := unrelated_declaration_ignored mem unrelated
  exact ⟨unrelated, ready.trans (by cbv), (built .standard).trans (by cbv)⟩

/-- A second declaration of a simple name that the view-model writes does make a difference. -/
example : (looped.declare (.ofClass "b.State")).isReady "a.Screen" = false := by cbv

/-! ## Types known by their names alone -/

section External

variable {n : String}

theorem mem_externals_withExternal {name : String} :
    name ∈ (t.withExternal n).externals ↔ name ∈ t.externals ∨ name = n := by
  rw [withExternal]
  split
  next known => exact ⟨.inl, fun h => h.elim id fun same => same ▸ known⟩
  next => rw [List.mem_append, List.mem_singleton]

/-- No other name is touched. -/
theorem resolveName_withExternal_of_ne {name : String} (other : name ≠ n) :
    (t.withExternal n).resolveName name = t.resolveName name := by
  have listed : name ∈ (t.withExternal n).externals ↔ name ∈ t.externals :=
    mem_externals_withExternal.trans (or_iff_left other)
  simp only [resolveName, listed]
  rfl

theorem declared?_of_unknown (unknown : t.resolves n = false) : t.declared? n = none := by
  by_contra declared
  obtain ⟨r, found⟩ := Option.ne_none_iff_exists'.mp declared
  exact Bool.false_ne_true (unknown.symm.trans (resolves_of_declared? found))

theorem builtin?_of_unknown (unknown : t.resolves n = false) : builtin? n = none := by
  by_contra builtin
  obtain ⟨q, found⟩ := Option.ne_none_iff_exists'.mp builtin
  rw [resolves, resolveName, declared?_of_unknown unknown, found] at unknown
  cases unknown

theorem resolveName_withExternal_self (unknown : t.resolves n = false) :
    (t.withExternal n).resolveName n = some ⟨n, lastSegment n⟩ := by
  have declared : (t.withExternal n).declared? n = none :=
    declared?_of_unknown (t := t) unknown
  have listed : n ∈ (t.withExternal n).externals := mem_externals_withExternal.mpr (.inr rfl)
  simp only [resolveName, declared, builtin?_of_unknown unknown, if_pos listed]

theorem exists_row_of_isReady {id : String} (ready : t.isReady id = true) :
    ∃ row, t.row? id = some row := by
  by_contra missing
  have absent : t.row? id = none := Option.eq_none_iff_forall_ne_some.mpr fun row found =>
    missing ⟨row, found⟩
  rw [isReady, absent] at ready
  cases ready

/-- A type that is known by its name alone has no declaration to inherit from. -/
theorem parents_withExternal (unknown : t.resolves n = false) (r : Row) :
    (t.withExternal n).parents r = t.parents r := by
  refine List.filterMap_congr fun s _ => ?_
  by_cases same : s.name = n
  · have before : t.resolveName n = none :=
      Option.isNone_iff_eq_none.mp (Option.isSome_eq_false_iff.mp unknown)
    rw [same, resolveName_withExternal_self unknown, before]
    exact declared?_of_unknown (t := t) unknown
  · rw [resolveName_withExternal_of_ne same]
    rfl

theorem agrees_withExternal (unknown : t.resolves n = false) {type : TypeRef}
    (known : t.knows type = true) : t.Agrees (t.withExternal n) type := fun name written =>
  resolveName_withExternal_of_ne (ne_of_resolves unknown (List.all_eq_true.mp known name written))

theorem seesAlike_withExternal (unknown : t.resolves n = false) (mem : row ∈ t.rows) :
    t.SeesAlike (t.withExternal n) row :=
  .of_parents_eq mem (fun _ there => there) fun r _ => parents_withExternal unknown r

/-- A name that was unknown now stands for itself, and nothing else changes but that more types
can be ready. -/
theorem revealed_type_only_helps (unknown : t.resolves n = false) :
    let u := t.withExternal n
    u.rows = t.rows ∧ u.resolveName n = some ⟨n, lastSegment n⟩ ∧
      (∀ name, name ≠ n → u.resolveName name = t.resolveName name) ∧
      (∀ row ∈ t.rows, u.visibleMembers row = t.visibleMembers row) ∧
      (∀ id, t.isReady id = true → u.isReady id = true) ∧
      ∀ row ∈ t.rows, t.isReady row.id = true →
        ∀ config, u.build config (u.candidate row) = t.build config (t.candidate row) := by
  intro u
  have alike : ∀ row ∈ t.rows, t.SeesAlike u row := fun _ => seesAlike_withExternal unknown
  have agrees : ∀ row ∈ t.rows, t.isReady row.id = true →
      (∀ type ∈ row.declaration.supertypes, t.Agrees u type) ∧
        ∀ a ∈ t.visibleMembers row, ∀ type ∈ a.member.types, t.Agrees u type := by
    intro row mem ready
    obtain ⟨supertypes, members⟩ := (isReady_iff (alike row mem).before).mp ready
    refine ⟨fun type written => agrees_withExternal unknown (supertypes type written), ?_⟩
    exact fun a visible type written =>
      agrees_withExternal unknown (members a visible type written)
  refine ⟨rfl, resolveName_withExternal_self unknown, fun _ => resolveName_withExternal_of_ne,
    fun row mem => (alike row mem).members, ?_, ?_⟩
  · intro id ready
    obtain ⟨row, found⟩ := exists_row_of_isReady ready
    obtain ⟨mem, rfl⟩ := mem_of_row? found
    obtain ⟨supertypes, members⟩ := agrees row mem ready
    exact ((alike row mem).isReady_eq supertypes members).trans ready
  · exact fun row mem ready => (alike row mem).build_eq (agrees row mem ready).2

end External

/-- The first view-model is ready, the second one extends a type that nobody has declared. -/
def awaiting : Table :=
  looped.declare (((Declaration.ofClass "a.Panel").marked .viewModel).extending
    (.mk "lib.Panel" [] false))

theorem revealed_panel_ready :
    let u := awaiting.withExternal "lib.Panel"
    awaiting.resolves "lib.Panel" = false ∧ awaiting.isReady "a.Panel" = false ∧
      u.isReady "a.Panel" = true ∧ u.isReady "a.Screen" = true ∧
      u.build .standard (u.candidate awaiting.rows[0]) =
        .ok ⟨"a.Screen", "Screen", some ⟨"state", "State"⟩, [⟨"go", [⟨"p0", "Int"⟩]⟩]⟩ := by
  intro u
  have unknown : awaiting.resolves "lib.Panel" = false := by cbv
  have ready : awaiting.isReady "a.Screen" = true := by cbv
  obtain ⟨_, _, _, _, kept, built⟩ := revealed_type_only_helps unknown
  refine ⟨unknown, by cbv, by cbv, kept "a.Screen" ready, ?_⟩
  exact (built awaiting.rows[0] (List.getElem_mem _) ready .standard).trans (by cbv)

end Table

end WrapperGen
