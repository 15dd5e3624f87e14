import WrapperGen.Proofs.Table.Ancestry

namespace WrapperGen

/-- The rows that are left when those of a list have been met. -/
def Row.without (met rows : List Row) : List Row :=
  rows.filter fun r => ∀ m ∈ met, r.id ≠ m.id

namespace Row

theorem without_nil (rows : List Row) : without [] rows = rows :=
  List.filter_eq_self.mpr fun r _ => by simp

theorem without_cons (row : Row) (met rows : List Row) :
    without (row :: met) rows = without met (row.others rows) := by
  rw [without, without, others, List.filter_filter]
  refine List.filter_congr fun r _ => ?_
  rw [Bool.eq_iff_iff]
  simp [and_comm]

theorem length_without_lt {row : Row} {rows : List Row} (met : List Row)
    (new : rows.any (·.id == row.id) = true) :
    (without (row :: met) rows).length < rows.length := by
  rw [without_cons]
  exact Nat.lt_of_le_of_lt (List.length_filter_le _ _) (length_others_lt new)

end Row

namespace Table

variable {t : Table}

/-- The recursive walk over declarations that have not been met yet: a row comes before all that
its parents lead to, in the order written, and the rows after it leave out what is met there. -/
def preorder (t : Table) (unseen rows : List Row) : List Row :=
  match rows with
  | [] => []
  | row :: siblings =>
    if _new : unseen.any (·.id == row.id) then
      let met := row :: t.preorder (row.others unseen) (t.parents row)
      met ++ t.preorder (Row.without met unseen) siblings
    else t.preorder unseen siblings
termination_by (unseen.length, rows.length)
decreasing_by
  · exact Prod.Lex.left _ _ (Row.length_others_lt (by assumption))
  · exact Prod.Lex.left _ _ (Row.length_without_lt _ (by assumption))
  · exact Prod.Lex.right _ (by simp)

/-- What waits below on the stack is walked with what the rows above it have left. -/
theorem visit_append (unseen above below : List Row) :
    t.visit unseen (above ++ below) =
      t.visit unseen above ++ t.visit (Row.without (t.visit unseen above) unseen) below := by
  fun_induction visit t unseen above with
  | case1 => rw [Row.without_nil, List.nil_append, List.nil_append]
  | case2 unseen row stack new ih =>
    rw [List.cons_append, visit, dif_pos new, ← List.append_assoc, ih, Row.without_cons]
    rfl
  | case3 unseen row stack met ih =>
    rw [List.cons_append, visit, dif_neg met, ih]

/-- The walk with a stack meets the rows in the order of the recursive one. -/
theorem visit_eq_preorder (unseen rows : List Row) :
    t.visit unseen rows = t.preorder unseen rows := by
  fun_induction preorder t unseen rows with
  | case1 => rw [visit]
  | case2 unseen row siblings new met above after =>
    have own : t.visit (row.others unseen) (t.parents row ++ siblings) =
        t.visit (row.others unseen) (t.parents row) ++
          t.visit (Row.without met unseen) siblings := by
      rw [visit_append, above, ← Row.without_cons]
    rw [visit, dif_pos new, own, above, after]
    rfl
  | case3 unseen row siblings seen ih => rw [visit, dif_neg seen, ih]

theorem any_of_mem_visit {unseen stack : List Row} {r : Row} (mem : r ∈ t.visit unseen stack) :
    unseen.any (·.id == r.id) = true := by
  fun_induction visit t unseen stack with
  | case1 => cases mem
  | case2 unseen row stack new ih =>
    obtain rfl | later := List.mem_cons.mp mem
    · exact new
    · exact (Row.any_others.mp (ih later)).1
  | case3 unseen row stack _ ih => exact ih mem

/-- No declaration is met twice. -/
theorem nodup_visit (unseen stack : List Row) : ((t.visit unseen stack).map Row.id).Nodup := by
  fun_induction visit t unseen stack with
  | case1 => exact .nil
  | case2 unseen row stack _ ih =>
    refine List.nodup_cons.mpr ⟨fun again => ?_, ih⟩
    obtain ⟨r, later, same⟩ := List.mem_map.mp again
    exact (Row.any_others.mp (any_of_mem_visit later)).2 same
  | case3 unseen row stack _ ih => exact ih

end Table

end WrapperGen
