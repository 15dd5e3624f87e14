import WrapperGen.Proofs.FirstOfEach
import WrapperGen.Proofs.Table.Declaring

namespace WrapperGen.Table

variable {t u : Table} {d : Declaration}

/-- The identity of the declaration is new and none of its names stands for anything yet. -/
structure Lacks (t : Table) (d : Declaration) : Prop where
  id : d.idAt t.size ∉ t.rows.map Row.id
  simpleName : t.resolves d.simpleName = false
  qualifiedName : ∀ q, d.qualifiedName = some q → t.resolves q = false

/-- The second table has come from the first one by declarations that were unknown. -/
def Grows : Table → Table → Prop :=
  Relation.ReflTransGen fun t u => ∃ d, t.Lacks d ∧ u = t.declare d

theorem resolves_iff {name : String} :
    t.resolves name = true ↔ ∃ n, t.resolveName name = some n := Option.isSome_iff_exists

theorem ne_of_resolves {n : String} (unknown : t.resolves n = false) {name : String}
    (known : t.resolves name = true) : name ≠ n := by
  rintro rfl
  exact Bool.false_ne_true (unknown.symm.trans known)

theorem resolves_of_declared? {q : String} {row : Row} (found : t.declared? q = some row) :
    t.resolves q = true := by
  rw [resolves, resolveName, found]
  rfl

theorem exists_declared?_of_mem {row : Row} {q : String} (mem : row ∈ t.rows)
    (named : row.declaration.qualifiedName = some q) : ∃ r, t.declared? q = some r := by
  refine Option.isSome_iff_exists.mp (List.find?_isSome.mpr ⟨row, List.mem_reverse.mpr mem, ?_⟩)
  rw [named]
  exact beq_self_eq_true _

/-- What a name stands for is known by its own qualified name. -/
theorem resolves_qualifiedName {name : String} {n : ResolvedName}
    (h : t.resolveName name = some n) : t.resolves n.qualifiedName = true := by
  unfold resolveName at h
  split at h
  next row found =>
    cases h
    exact resolves_of_declared? found
  next =>
    split at h
    next q found =>
      cases h
      have itself : (builtin? q).isSome :=
        List.find?_isSome.mpr ⟨q, List.mem_of_find?_eq_some found, by simp⟩
      obtain ⟨q', found'⟩ := Option.isSome_iff_exists.mp itself
      rw [resolves, resolveName, found']
      cases t.declared? q <;> rfl
    next unknown =>
      split at h
      next external =>
        cases h
        rw [resolves, resolveName, unknown]
        cases t.declared? name <;> simp [external]
      next =>
        split at h
        next row only =>
          obtain ⟨q, named, rfl⟩ := Option.map_eq_some_iff.mp h
          have mem : row ∈ t.namedSimply name := only ▸ List.mem_singleton_self row
          obtain ⟨r, found⟩ := exists_declared?_of_mem (List.mem_filter.mp mem).1 named
          exact resolves_of_declared? found
        next => cases h

/-- A supertype is looked up twice: what it stands for is known, so it does not bear a qualified
name that is new. -/
theorem parents_declare_of_eq (fresh : d.idAt t.size ∉ t.rows.map Row.id)
    (unknown : ∀ q, d.qualifiedName = some q → t.resolves q = false) {r : Row}
    (same : ∀ s ∈ r.declaration.supertypes,
      (t.declare d).resolveName s.name = t.resolveName s.name) :
    (t.declare d).parents r = t.parents r := by
  refine List.filterMap_congr fun s written => ?_
  rw [same s written]
  refine Option.bind_congr fun n resolved => declared?_declare_of_ne fresh fun named => ?_
  exact ne_of_resolves (unknown _ named) (resolves_qualifiedName resolved) rfl

namespace Lacks

theorem rows_declare (h : t.Lacks d) : (t.declare d).rows = t.rows ++ [⟨d.idAt t.size, d⟩] :=
  rows_declare_of_fresh h.id

theorem mem_rows_declare (h : t.Lacks d) {r : Row} (mem : r ∈ t.rows) : r ∈ (t.declare d).rows :=
  h.rows_declare ▸ List.mem_append_left _ mem

theorem row?_declare (h : t.Lacks d) {id : String} {row : Row} (found : t.row? id = some row) :
    (t.declare d).row? id = some row := by
  have found' : t.rows.find? (·.id == id) = some row := found
  rw [row?, h.rows_declare, List.find?_append, found']
  rfl

theorem name_ne_simpleName (h : t.Lacks d) {name : String} (known : t.resolves name = true) :
    d.simpleName ≠ name :=
  (ne_of_resolves h.simpleName known).symm

theorem name_ne_qualifiedName (h : t.Lacks d) {name : String} (known : t.resolves name = true) :
    d.qualifiedName ≠ some name :=
  fun same => ne_of_resolves (h.qualifiedName name same) known rfl

theorem declared?_declare (h : t.Lacks d) {q : String} (known : t.resolves q = true) :
    (t.declare d).declared? q = t.declared? q :=
  declared?_declare_of_ne h.id (h.name_ne_qualifiedName known)

/-- A name that is known keeps its meaning. -/
theorem resolveName_declare (h : t.Lacks d) {name : String} (known : t.resolves name = true) :
    (t.declare d).resolveName name = t.resolveName name :=
  resolveName_declare_of_ne h.id (h.name_ne_simpleName known) (h.name_ne_qualifiedName known)

theorem resolves_declare (h : t.Lacks d) {name : String} (known : t.resolves name = true) :
    (t.declare d).resolves name = true := by
  rw [resolves, h.resolveName_declare known]
  exact known

theorem knows_declare (h : t.Lacks d) {type : TypeRef} (known : t.knows type = true) :
    (t.declare d).knows type = true :=
  List.all_eq_true.mpr fun name mem => h.resolves_declare (List.all_eq_true.mp known name mem)

theorem mem_parents_declare (h : t.Lacks d) {r p : Row} (parent : p ∈ t.parents r) :
    p ∈ (t.declare d).parents r := by
  obtain ⟨s, written, n, resolved, found⟩ := mem_parents_iff.mp parent
  refine mem_parents_iff.mpr ⟨s, written, n, ?_, ?_⟩
  · exact (h.resolveName_declare (resolves_iff.mpr ⟨n, resolved⟩)).trans resolved
  · exact (h.declared?_declare (resolves_of_declared? found)).trans found

theorem inherits_declare (h : t.Lacks d) {row r : Row} (inherits : t.Inherits row r) :
    (t.declare d).Inherits row r := by
  induction inherits with
  | refl => exact .refl
  | tail _ parent ih => exact ih.tail (h.mem_parents_declare parent)

theorem parents_declare (h : t.Lacks d) {r : Row}
    (known : ∀ s ∈ r.declaration.supertypes, t.resolves s.name = true) :
    (t.declare d).parents r = t.parents r :=
  parents_declare_of_eq h.id h.qualifiedName fun s written =>
    h.resolveName_declare (known s written)

/-- A row that writes the name of the new declaration inherits from it. -/
theorem mem_parents_of_named (h : t.Lacks d) {r : Row} {s : TypeRef}
    (written : s ∈ r.declaration.supertypes) (named : d.qualifiedName = some s.name) :
    ⟨d.idAt t.size, d⟩ ∈ (t.declare d).parents r := by
  have found : (t.declare d).declared? s.name = some ⟨d.idAt t.size, d⟩ := by
    rw [declared?, h.rows_declare, List.reverse_append, List.reverse_singleton,
      List.singleton_append, List.find?_cons_of_pos]
    exact beq_iff_eq.mpr named
  have resolved : (t.declare d).resolveName s.name = some ⟨s.name, d.simpleName⟩ := by
    rw [resolveName, found]
  exact mem_parents_iff.mpr ⟨s, written, _, resolved, found⟩

end Lacks

/-- The supertypes of a row and of all from which it inherits are known, each by its own name. -/
def KnowsAncestry (t : Table) (row : Row) : Prop :=
  ∀ r, t.Inherits row r → ∀ s ∈ r.declaration.supertypes, t.resolves s.name = true

namespace KnowsAncestry

variable {row : Row}

theorem inherits_of_declare (known : t.KnowsAncestry row) (h : t.Lacks d) {r : Row}
    (inherits : (t.declare d).Inherits row r) : t.Inherits row r := by
  induction inherits with
  | refl => exact .refl
  | tail _ parent ih => exact ih.tail (h.parents_declare (known _ ih) ▸ parent)

theorem declare (known : t.KnowsAncestry row) (h : t.Lacks d) : (t.declare d).KnowsAncestry row :=
  fun r inherits s written =>
    h.resolves_declare (known r (known.inherits_of_declare h inherits) s written)

theorem ancestry_declare (known : t.KnowsAncestry row) (h : t.Lacks d) (mem : row ∈ t.rows) :
    (t.declare d).ancestry row = t.ancestry row :=
  ancestry_eq_of_parents_eq mem
    (fun _ inherits => h.mem_rows_declare (inherits.mem_rows mem))
    (fun r inherits => h.parents_declare (known r inherits))

/-- A row whose ancestry is known keeps its members while the table grows. -/
theorem grows (known : t.KnowsAncestry row) {id : String} (found : t.row? id = some row)
    (growth : t.Grows u) : u.KnowsAncestry row ∧ u.row? id = some row ∧
      u.visibleMembers row = t.visibleMembers row ∧
      ∀ type, t.knows type = true → u.knows type = true := by
  induction growth with
  | refl => exact ⟨known, found, rfl, fun _ known => known⟩
  | tail _ step ih =>
    obtain ⟨d, lacks, rfl⟩ := step
    obtain ⟨known', found', members, types⟩ := ih
    refine ⟨known'.declare lacks, lacks.row?_declare found', ?_, ?_⟩
    · rw [← members, visibleMembers, visibleMembers,
        known'.ancestry_declare lacks (mem_of_row? found').1]
    · exact fun type known => lacks.knows_declare (types type known)

end KnowsAncestry

end WrapperGen.Table
