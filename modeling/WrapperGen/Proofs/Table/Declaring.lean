import WrapperGen.Proofs.Table.Ancestry

namespace WrapperGen

namespace Row

/-- A row takes the place of the one of its identity. -/
theorem upsert_of_found {row r : Row} {rows : List Row} {i : Nat}
    (distinct : (rows.map Row.id).Nodup) (there : rows[i]? = some r) (same : r.id = row.id) :
    upsert row rows = rows.set i row := by
  induction rows generalizing i with
  | nil => cases there
  | cons first rest ih =>
    obtain ⟨apart, distinct'⟩ := List.nodup_cons.mp distinct
    cases i with
    | zero =>
      obtain rfl : first = r := Option.some.inj there
      rw [upsert, if_pos same]
      rfl
    | succ i =>
      have mem : r ∈ rest := List.mem_of_getElem? there
      have other : first.id ≠ row.id := fun h =>
        apart (h.trans same.symm ▸ List.mem_map_of_mem mem)
      rw [upsert, if_neg other, ih distinct' there]
      rfl

theorem mem_upsert_self (row : Row) (rows : List Row) : row ∈ upsert row rows := by
  induction rows with
  | nil => exact List.mem_singleton_self row
  | cons first rest ih =>
    rw [upsert]
    split
    · exact List.mem_cons_self
    · exact List.mem_cons_of_mem _ ih

end Row

namespace Table

variable {t : Table} {d : Declaration}

theorem mem_rows_declare_self : ⟨d.idAt t.size, d⟩ ∈ (t.declare d).rows :=
  Row.mem_upsert_self _ _

theorem rows_declare_of_found {r : Row} {i : Nat} (there : t.rows[i]? = some r)
    (same : r.id = d.idAt t.size) :
    (t.declare d).rows = t.rows.set i ⟨d.idAt t.size, d⟩ ∧
      (t.declare d).rows.map Row.id = t.rows.map Row.id := by
  refine ⟨Row.upsert_of_found t.distinct there same, ?_⟩
  have known : d.idAt t.size ∈ t.rows.map Row.id :=
    same ▸ List.mem_map_of_mem (List.mem_of_getElem? there)
  exact (Row.map_id_upsert _ _).trans (if_pos known)

theorem rows_declare_of_fresh (fresh : d.idAt t.size ∉ t.rows.map Row.id) :
    (t.declare d).rows = t.rows ++ [⟨d.idAt t.size, d⟩] :=
  Row.upsert_of_fresh fresh

theorem declared?_declare_of_ne (fresh : d.idAt t.size ∉ t.rows.map Row.id) {q : String}
    (other : d.qualifiedName ≠ some q) : (t.declare d).declared? q = t.declared? q := by
  have passed : (d.qualifiedName == some q) = false := beq_false_of_ne other
  rw [declared?, rows_declare_of_fresh fresh, List.reverse_append, List.reverse_singleton,
    List.singleton_append, List.find?_cons, passed]
  rfl

theorem namedSimply_declare_of_ne (fresh : d.idAt t.size ∉ t.rows.map Row.id) {name : String}
    (other : d.simpleName ≠ name) : (t.declare d).namedSimply name = t.namedSimply name := by
  have passed : (d.simpleName == name) = false := beq_false_of_ne other
  rw [namedSimply, rows_declare_of_fresh fresh, List.filter_append, List.filter_cons, passed]
  exact List.append_nil _

/-- A declaration of a new identity does not touch the names other than its own. -/
theorem resolveName_declare_of_ne (fresh : d.idAt t.size ∉ t.rows.map Row.id) {name : String}
    (simple : d.simpleName ≠ name) (qualified : d.qualifiedName ≠ some name) :
    (t.declare d).resolveName name = t.resolveName name := by
  have externals : (t.declare d).externals = t.externals := rfl
  simp only [resolveName, declared?_declare_of_ne fresh qualified,
    namedSimply_declare_of_ne fresh simple, externals]

end Table

end WrapperGen
