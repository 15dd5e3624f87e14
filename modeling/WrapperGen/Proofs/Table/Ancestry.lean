import Mathlib.Data.List.Nodup
import Mathlib.Logic.Relation
import WrapperGen.Table.Members

namespace WrapperGen

theorem Row.any_others {row : Row} {rows : List Row} {id : String} :
    (row.others rows).any (·.id == id) = true ↔
      rows.any (·.id == id) = true ∧ id ≠ row.id := by
  simp only [Row.others, List.any_filter, List.any_eq_true, Bool.and_eq_true, bne_iff_ne,
    beq_iff_eq]
  constructor
  · rintro ⟨r, mem, other, rfl⟩
    exact ⟨⟨r, mem, rfl⟩, other⟩
  · rintro ⟨⟨r, mem, rfl⟩, other⟩
    exact ⟨r, mem, other, rfl⟩

namespace Table

variable {t u : Table}

theorem row_inj {r r' : Row} (mem : r ∈ t.rows) (mem' : r' ∈ t.rows) (same : r.id = r'.id) :
    r = r' :=
  List.inj_on_of_nodup_map t.distinct mem mem' same

theorem mem_of_row? {id : String} {row : Row} (found : t.row? id = some row) :
    row ∈ t.rows ∧ row.id = id := by
  have named := List.find?_some (p := fun r : Row => r.id == id) found
  exact ⟨List.mem_of_find?_eq_some found, beq_iff_eq.mp named⟩

theorem row?_eq_some_iff {id : String} {row : Row} :
    t.row? id = some row ↔ row ∈ t.rows ∧ row.id = id := by
  refine ⟨mem_of_row?, ?_⟩
  rintro ⟨mem, rfl⟩
  have some : (t.row? row.id).isSome := List.find?_isSome.mpr ⟨row, mem, beq_self_eq_true _⟩
  obtain ⟨r, found⟩ := Option.isSome_iff_exists.mp some
  obtain ⟨mem', same⟩ := mem_of_row? found
  rw [found, row_inj mem' mem same]

theorem mem_of_declared? {q : String} {row : Row} (found : t.declared? q = some row) :
    row ∈ t.rows :=
  List.mem_reverse.mp (List.mem_of_find?_eq_some found)

theorem mem_parents_iff {r p : Row} : p ∈ t.parents r ↔
    ∃ s ∈ r.declaration.supertypes, ∃ n, t.resolveName s.name = some n ∧
      t.declared? n.qualifiedName = some p := by
  simp only [parents, List.mem_filterMap, Option.bind_eq_some_iff]

theorem mem_rows_of_mem_parents {r p : Row} (parent : p ∈ t.parents r) : p ∈ t.rows := by
  obtain ⟨_, _, n, _, found⟩ := mem_parents_iff.mp parent
  exact mem_of_declared? found

theorem mem_rows_of_mem_stack {row : Row} {stack : List Row}
    (rows : ∀ r ∈ row :: stack, r ∈ t.rows) :
    ∀ r ∈ t.parents row ++ stack, r ∈ t.rows := by
  intro r waiting
  obtain parent | old := List.mem_append.mp waiting
  · exact mem_rows_of_mem_parents parent
  · exact rows r (List.mem_cons_of_mem _ old)

/-- The second row is the first one or a declaration from which the first one inherits. -/
def Inherits (t : Table) : Row → Row → Prop :=
  Relation.ReflTransGen fun r p => p ∈ t.parents r

theorem Inherits.mem_rows {row r : Row} (mem : row ∈ t.rows) (h : t.Inherits row r) :
    r ∈ t.rows := by
  induction h with
  | refl => exact mem
  | tail _ parent _ => exact mem_rows_of_mem_parents parent

theorem inherits_of_mem_waiting {row s r : Row} {stack : List Row}
    (waiting : s ∈ t.parents row ++ stack) (inherits : t.Inherits s r) :
    ∃ s' ∈ row :: stack, t.Inherits s' r := by
  obtain parent | old := List.mem_append.mp waiting
  · exact ⟨row, List.mem_cons_self, .head parent inherits⟩
  · exact ⟨s, List.mem_cons_of_mem _ old, inherits⟩

theorem inherits_of_mem_visit {unseen stack : List Row} {r : Row}
    (mem : r ∈ t.visit unseen stack) : ∃ s ∈ stack, t.Inherits s r := by
  fun_induction visit t unseen stack with
  | case1 => cases mem
  | case2 unseen row stack _ ih =>
    obtain rfl | later := List.mem_cons.mp mem
    · exact ⟨r, List.mem_cons_self, .refl⟩
    · obtain ⟨s, waiting, inherits⟩ := ih later
      exact inherits_of_mem_waiting waiting inherits
  | case3 unseen row stack _ ih =>
    obtain ⟨s, waiting, inherits⟩ := ih mem
    exact ⟨s, List.mem_cons_of_mem _ waiting, inherits⟩

theorem mem_visit_of_mem_stack {unseen stack : List Row} (rows : ∀ r ∈ stack, r ∈ t.rows) {r : Row}
    (mem : r ∈ stack) (new : unseen.any (·.id == r.id) = true) : r ∈ t.visit unseen stack := by
  fun_induction visit t unseen stack with
  | case1 => cases mem
  | case2 unseen row stack _ ih =>
    have known := mem_rows_of_mem_stack rows
    by_cases same : r.id = row.id
    · rw [row_inj (rows r mem) (rows row List.mem_cons_self) same]
      exact List.mem_cons_self
    · obtain rfl | old := List.mem_cons.mp mem
      · exact absurd rfl same
      · exact List.mem_cons_of_mem _
          (ih known (List.mem_append_right _ old) (Row.any_others.mpr ⟨new, same⟩))
  | case3 unseen row stack seen ih =>
    obtain rfl | old := List.mem_cons.mp mem
    · exact absurd new seen
    · exact ih (fun r waiting => rows r (List.mem_cons_of_mem _ waiting)) old new

/-- The walk goes on from every row it meets. -/
theorem mem_visit_of_mem_parents {unseen stack : List Row} (rows : ∀ r ∈ stack, r ∈ t.rows)
    {r p : Row} (mem : r ∈ t.visit unseen stack) (parent : p ∈ t.parents r)
    (new : unseen.any (·.id == p.id) = true) : p ∈ t.visit unseen stack := by
  fun_induction visit t unseen stack with
  | case1 => cases mem
  | case2 unseen row stack _ ih =>
    have known := mem_rows_of_mem_stack rows
    by_cases same : p.id = row.id
    · rw [row_inj (mem_rows_of_mem_parents parent) (rows row List.mem_cons_self) same]
      exact List.mem_cons_self
    · -- the parents of the row met now wait on the stack, those met later are left to the rest
      have new' : (row.others unseen).any (·.id == p.id) = true := Row.any_others.mpr ⟨new, same⟩
      refine List.mem_cons_of_mem _ ?_
      obtain rfl | later := List.mem_cons.mp mem
      · exact mem_visit_of_mem_stack known (List.mem_append_left _ parent) new'
      · exact ih known later new'
  | case3 unseen row stack _ ih =>
    exact ih (fun r waiting => rows r (List.mem_cons_of_mem _ waiting)) mem new

/-- The walk over the declarations of a row meets just those from which the row inherits. -/
theorem mem_ancestry_iff {row r : Row} (mem : row ∈ t.rows) :
    r ∈ t.ancestry row ↔ t.Inherits row r := by
  have start : ∀ r ∈ [row], r ∈ t.rows := by simpa using mem
  have unseen : ∀ r ∈ t.rows, t.rows.any (·.id == r.id) = true := fun r mem =>
    List.any_eq_true.mpr ⟨r, mem, beq_self_eq_true _⟩
  constructor
  · intro met
    obtain ⟨s, only, inherits⟩ := inherits_of_mem_visit met
    rwa [List.mem_singleton.mp only] at inherits
  · intro inherits
    induction inherits with
    | refl => exact mem_visit_of_mem_stack start List.mem_cons_self (unseen row mem)
    | tail _ parent ih =>
      exact mem_visit_of_mem_parents start ih parent (unseen _ (mem_rows_of_mem_parents parent))

/-- Two tables that agree on the parents of what can be met are walked alike. -/
theorem visit_eq_of_parents_eq {unseen unseen' stack : List Row}
    (parents : ∀ s ∈ stack, ∀ r, t.Inherits s r → u.parents r = t.parents r)
    (new : ∀ s ∈ stack, ∀ r, t.Inherits s r →
      unseen'.any (·.id == r.id) = unseen.any (·.id == r.id)) :
    u.visit unseen' stack = t.visit unseen stack := by
  fun_induction visit t unseen stack generalizing unseen' with
  | case1 => rw [visit]
  | case2 unseen row stack met ih =>
    have met' : unseen'.any (·.id == row.id) = true :=
      (new row List.mem_cons_self row .refl).trans met
    rw [visit, dif_pos met', parents row List.mem_cons_self row .refl]
    refine congrArg (row :: ·) (ih ?_ ?_)
    · intro s mem r inherits
      obtain ⟨s', mem', inherits'⟩ := inherits_of_mem_waiting mem inherits
      exact parents s' mem' r inherits'
    · intro s mem r inherits
      obtain ⟨s', mem', inherits'⟩ := inherits_of_mem_waiting mem inherits
      rw [Bool.eq_iff_iff, Row.any_others, Row.any_others, new s' mem' r inherits']
  | case3 unseen row stack unmet ih =>
    have unmet' : ¬unseen'.any (·.id == row.id) = true :=
      (new row List.mem_cons_self row .refl).symm ▸ unmet
    rw [visit, dif_neg unmet']
    exact ih (fun s mem => parents s (List.mem_cons_of_mem _ mem))
      (fun s mem => new s (List.mem_cons_of_mem _ mem))

theorem ancestry_eq_of_parents_eq {row : Row} (mem : row ∈ t.rows)
    (rows : ∀ r, t.Inherits row r → r ∈ u.rows)
    (parents : ∀ r, t.Inherits row r → u.parents r = t.parents r) :
    u.ancestry row = t.ancestry row := by
  refine visit_eq_of_parents_eq ?_ ?_
  · intro s only r inherits
    rw [List.mem_singleton.mp only] at inherits
    exact parents r inherits
  · intro s only r inherits
    rw [List.mem_singleton.mp only] at inherits
    have here : ∀ rows : List Row, r ∈ rows → rows.any (·.id == r.id) = true := fun _ mem =>
      List.any_eq_true.mpr ⟨r, mem, beq_self_eq_true _⟩
    rw [here _ (inherits.mem_rows mem), here _ (rows r inherits)]

end Table

end WrapperGen
