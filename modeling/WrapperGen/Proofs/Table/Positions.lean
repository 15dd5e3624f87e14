import Mathlib.Data.List.Induction
import Mathlib.Data.List.Nodup
import WrapperGen.Proofs.Roster.Lookup
import WrapperGen.Proofs.Table.Declaring
import WrapperGen.Table.Indexed

namespace WrapperGen

section

variable {α : Type} {p : α → Bool} {l : List α}

theorem findIdxs_concat (p : α → Bool) (l : List α) (a : α) :
    (l ++ [a]).findIdxs p = l.findIdxs p ++ if p a then [l.length] else [] := by
  rw [List.findIdxs_append, List.findIdxs_singleton, Nat.zero_add]

theorem mem_findIdxs_iff {i : Nat} : i ∈ l.findIdxs p ↔ ∃ a, l[i]? = some a ∧ p a = true := by
  rw [List.mem_findIdxs_iff_exists_getElem_pos]
  constructor
  · rintro ⟨inside, holds⟩
    exact ⟨l[i], List.getElem?_eq_getElem inside, holds⟩
  · rintro ⟨a, there, holds⟩
    obtain ⟨inside, rfl⟩ := List.getElem?_eq_some_iff.mp there
    exact ⟨inside, holds⟩

theorem le_of_getLast? {ps : List Nat} (ascending : ps.Pairwise (· < ·)) {k : Nat}
    (last : ps.getLast? = some k) : ∀ i ∈ ps, i ≤ k := by
  intro i mem
  obtain ⟨before, rfl⟩ := List.getLast?_eq_some_iff.mp last
  obtain earlier | only := List.mem_append.mp mem
  · exact Nat.le_of_lt
      ((List.pairwise_append.mp ascending).2.2 i earlier k (List.mem_singleton_self k))
  · exact Nat.le_of_eq (List.mem_singleton.mp only)

/-- The last position is the greatest one. -/
theorem getLast?_findIdxs_iff {i : Nat} : (l.findIdxs p).getLast? = some i ↔
    i ∈ l.findIdxs p ∧ ∀ j ∈ l.findIdxs p, j ≤ i := by
  have ascending : (l.findIdxs p).Pairwise (· < ·) := List.pairwise_findIdxs
  constructor
  · exact fun last => ⟨List.mem_of_getLast? last, le_of_getLast? ascending last⟩
  · rintro ⟨mem, greatest⟩
    cases last : (l.findIdxs p).getLast? with
    | none =>
      rw [List.getLast?_eq_none_iff.mp last] at mem
      cases mem
    | some k =>
      have below := greatest k (List.mem_of_getLast? last)
      rw [Nat.le_antisymm below (le_of_getLast? ascending last i mem)]

/-- What stands at the last position is found from behind. -/
theorem getLast?_findIdxs_bind (p : α → Bool) (l : List α) :
    (l.findIdxs p).getLast?.bind (l[·]?) = l.reverse.find? p := by
  induction l using List.reverseRecOn with
  | nil => rfl
  | append_singleton l a ih =>
    rw [findIdxs_concat, List.reverse_append, List.reverse_singleton, List.singleton_append]
    cases holds : p a with
    | true =>
      rw [List.find?_cons_of_pos holds, if_pos rfl, List.getLast?_concat, Option.bind_some,
        List.getElem?_concat_length]
    | false =>
      rw [List.find?_cons_of_neg (by simp [holds]), ← ih, if_neg (by simp), List.append_nil]
      refine Option.bind_congr fun i last => ?_
      obtain ⟨b, there, _⟩ := mem_findIdxs_iff.mp (List.mem_of_getLast? last)
      exact List.getElem?_append_left (List.getElem?_eq_some_iff.mp there).1

theorem filterMap_findIdxs (p : α → Bool) (l : List α) :
    (l.findIdxs p).filterMap (l[·]?) = l.filter p := by
  induction l using List.reverseRecOn with
  | nil => rfl
  | append_singleton l a ih =>
    have earlier : (l.findIdxs p).filterMap ((l ++ [a])[·]?) = l.filter p := by
      rw [← ih]
      refine List.filterMap_congr fun i mem => ?_
      obtain ⟨b, there, _⟩ := mem_findIdxs_iff.mp mem
      exact List.getElem?_append_left (List.getElem?_eq_some_iff.mp there).1
    rw [findIdxs_concat, List.filterMap_append, earlier, List.filter_append]
    cases holds : p a <;> simp [holds]

/-- Ascending positions are known by what is among them. -/
theorem eq_findIdxs_iff {ps : List Nat} : ps = l.findIdxs p ↔
    ps.Pairwise (· < ·) ∧ ∀ i, i ∈ ps ↔ ∃ a, l[i]? = some a ∧ p a = true := by
  constructor
  · rintro rfl
    exact ⟨List.pairwise_findIdxs, fun i => mem_findIdxs_iff⟩
  · rintro ⟨ascending, mem⟩
    have perm : ps.Perm (l.findIdxs p) :=
      (List.perm_ext_iff_of_nodup (ascending.imp Nat.ne_of_lt) List.nodup_findIdxs).mpr
        fun i => (mem i).trans mem_findIdxs_iff.symm
    refine perm.eq_of_pairwise ?_ ascending List.pairwise_findIdxs
    intro i j _ _ before after
    exact absurd after (Nat.lt_asymm before)

end

namespace Index

variable {α : Type}

theorem get?_set (x : Index α) (name other : String) (value : α) :
    (x.set name value).get? other = if name = other then some value else x.get? other := by
  have found := Roster.find?_insert x (name, value) other
  rw [get?, set, found]
  split <;> rfl

end Index

namespace IndexedTable

variable {x : IndexedTable} {t : Table} {rows : List Row}

/-- The indexes tell where the identities and the names of the rows stand. -/
structure Indexes (x : IndexedTable) (rows : List Row) : Prop where
  ids : x.ids = rows.map Row.id
  byId : ∀ id, x.byId.get? id = (rows.findIdxs (·.id == id)).getLast?
  byQualified : ∀ q, x.byQualified.get? q =
    (rows.findIdxs (·.declaration.qualifiedName == some q)).getLast?
  bySimple : ∀ n, (x.bySimple.get? n).getD [] = rows.findIdxs (·.declaration.simpleName == n)
  listed : ∀ n, x.bySimple.get? n ≠ some []

/-- The indexed form holds the rows and the external types of a table. -/
structure Represents (x : IndexedTable) (t : Table) : Prop where
  declarations : x.declarations = t.rows.map Row.declaration
  indexes : x.Indexes t.rows
  externals : x.externals = t.externals

/-- A row that is entered behind all others is found under its own names. -/
theorem Indexes.enter (h : x.Indexes rows) (row : Row) :
    (x.enter rows.length row.declaration row.id).Indexes (rows ++ [row]) where
  ids := by
    have behind : rows.length = x.ids.length := by rw [h.ids, List.length_map]
    rw [List.map_append, ← h.ids]
    exact if_pos behind
  byId id := by
    change (x.byId.set row.id rows.length).get? id = _
    rw [Index.get?_set, findIdxs_concat]
    by_cases same : row.id = id
    · simp [same]
    · simp [same, h.byId]
  byQualified q := by
    rw [findIdxs_concat, List.getLast?_append, ← h.byQualified]
    cases named : row.declaration.qualifiedName with
    | some q' =>
      have entered : (x.enter rows.length row.declaration row.id).byQualified =
          x.byQualified.set q' rows.length := by simp only [IndexedTable.enter, named]
      rw [entered, Index.get?_set]
      by_cases same : q' = q <;> simp [same]
    | none =>
      have entered : (x.enter rows.length row.declaration row.id).byQualified =
          x.byQualified := by simp only [IndexedTable.enter, named]
      rw [entered]
      rfl
  bySimple n := by
    change ((x.bySimple.set row.declaration.simpleName _).get? n).getD [] = _
    rw [Index.get?_set, findIdxs_concat, ← h.bySimple]
    by_cases same : row.declaration.simpleName = n
    · simp [same]
    · simp [same]
  listed n := by
    change (x.bySimple.set row.declaration.simpleName _).get? n ≠ some []
    rw [Index.get?_set]
    split
    · simp
    · exact h.listed n

/-- The rows are entered one after the other, the first of them behind those already there. -/
theorem Indexes.foldl_enter {entered : List Row} (h : x.Indexes entered) (rows : List Row) :
    let y := (rows.zipIdx entered.length).foldl
      (fun y (row, position) => y.enter position row.declaration row.id) x
    y.Indexes (entered ++ rows) ∧ y.declarations = x.declarations ∧ y.externals = x.externals := by
  induction rows generalizing x entered with
  | nil => exact ⟨(List.append_nil entered).symm ▸ h, rfl, rfl⟩
  | cons row rest ih =>
    have next := ih (h.enter row)
    rw [List.length_append, List.length_singleton, List.append_assoc] at next
    exact next

theorem represents_reindex (declarations : x.declarations = t.rows.map Row.declaration)
    (ids : x.ids = t.rows.map Row.id) (externals : x.externals = t.externals) :
    x.reindex.Represents t := by
  have cleared : ({ x with ids := [], byId := ∅, byQualified := ∅, bySimple := ∅ } :
      IndexedTable).Indexes [] :=
    ⟨rfl, fun _ => rfl, fun _ => rfl, fun _ => rfl, fun _ => nofun⟩
  have reentered := cleared.foldl_enter t.rows
  have zipped : x.declarations.zip x.ids = t.rows.map fun r => (r.declaration, r.id) := by
    rw [declarations, ids, List.zip_map']
  have whole : x.reindex = t.rows.zipIdx.foldl
      (fun y (row, position) => y.enter position row.declaration row.id)
      { x with ids := [], byId := ∅, byQualified := ∅, bySimple := ∅ } := by
    rw [reindex, zipped, List.zipIdx_map, List.foldl_map]
    rfl
  rw [List.length_nil, ← whole] at reentered
  obtain ⟨indexes, kept, kept'⟩ := reentered
  exact ⟨kept.trans declarations, indexes, kept'.trans externals⟩

theorem declare_of_found {d : Declaration} {i : Nat}
    (found : x.byId.get? (d.idAt x.size) = some i) :
    x.declare d = ({ x with declarations := x.declarations.set i d } : IndexedTable).reindex := by
  simp only [declare, found]

theorem declare_of_fresh {d : Declaration} (fresh : x.byId.get? (d.idAt x.size) = none) :
    x.declare d =
      { x.enter x.size d (d.idAt x.size) with declarations := x.declarations ++ [d] } := by
  simp only [declare, fresh]

namespace Represents

theorem size_eq (h : x.Represents t) : x.size = t.size := by
  rw [size, h.declarations, List.length_map, Table.size]

theorem rows_eq (h : x.Represents t) : x.rows = t.rows := by
  rw [rows, h.declarations, h.indexes.ids, List.zipWith_map, List.zipWith_self]
  exact List.map_id' t.rows

theorem getElem?_declarations (h : x.Represents t) (i : Nat) :
    x.declarations[i]? = t.rows[i]?.map Row.declaration := by
  rw [h.declarations, List.getElem?_map]

theorem get?_byId_iff (h : x.Represents t) {id : String} {i : Nat} :
    x.byId.get? id = some i ↔ ∃ r, t.rows[i]? = some r ∧ r.id = id := by
  rw [h.indexes.byId, getLast?_findIdxs_iff, mem_findIdxs_iff]
  simp only [beq_iff_eq]
  refine and_iff_left_of_imp ?_
  rintro ⟨r, there, rfl⟩ j mem
  obtain ⟨r', there', same⟩ := mem_findIdxs_iff.mp mem
  obtain rfl := t.row_inj (List.mem_of_getElem? there') (List.mem_of_getElem? there)
    (beq_iff_eq.mp same)
  obtain ⟨inside, _⟩ := List.getElem?_eq_some_iff.mp there
  have distinct : t.rows.Nodup := t.distinct.of_map
  have here := (List.getElem?_inj inside distinct).mp (there.trans there'.symm)
  exact Nat.le_of_eq here.symm

theorem get?_byId_eq_none_iff (h : x.Represents t) {id : String} :
    x.byId.get? id = none ↔ id ∉ t.rows.map Row.id := by
  rw [Option.eq_none_iff_forall_ne_some]
  constructor
  · intro none mem
    obtain ⟨r, mem', same⟩ := List.mem_map.mp mem
    obtain ⟨i, there⟩ := List.mem_iff_getElem?.mp mem'
    exact none i (h.get?_byId_iff.mpr ⟨r, there, same⟩)
  · intro new i found
    obtain ⟨r, there, same⟩ := h.get?_byId_iff.mp found
    exact new (same ▸ List.mem_map_of_mem (List.mem_of_getElem? there))

theorem declare (h : x.Represents t) (d : Declaration) :
    (x.declare d).Represents (t.declare d) := by
  cases found : x.byId.get? (d.idAt x.size) with
  | some i =>
    obtain ⟨r, there, same⟩ := h.get?_byId_iff.mp found
    rw [h.size_eq] at same
    obtain ⟨rows, ids⟩ := Table.rows_declare_of_found there same
    rw [declare_of_found found]
    refine represents_reindex ?_ (h.indexes.ids.trans ids.symm) h.externals
    rw [rows, List.map_set, ← h.declarations]
  | none =>
    have new := h.get?_byId_eq_none_iff.mp found
    have entered := h.indexes.enter ⟨d.idAt x.size, d⟩
    rw [h.size_eq] at new
    rw [← Table.size, ← h.size_eq] at entered
    have rows := Table.rows_declare_of_fresh new
    rw [← h.size_eq] at rows
    rw [declare_of_fresh found]
    refine ⟨?_, ?_, h.externals⟩
    · rw [rows, List.map_append, ← h.declarations]
      rfl
    · rw [rows]
      exact ⟨entered.ids, entered.byId, entered.byQualified, entered.bySimple, entered.listed⟩

theorem withExternal (h : x.Represents t) (name : String) :
    (x.withExternal name).Represents (t.withExternal name) where
  declarations := h.declarations
  indexes := ⟨h.indexes.ids, h.indexes.byId, h.indexes.byQualified, h.indexes.bySimple,
    h.indexes.listed⟩
  externals := by
    change (if name ∈ x.externals then _ else _) = _
    rw [h.externals]
    rfl

theorem row?_eq (h : x.Represents t) (id : String) : x.row? id = t.row? id := by
  refine Option.ext fun r => ?_
  rw [row?, h.rows_eq, Table.row?_eq_some_iff, Option.bind_eq_some_iff]
  constructor
  · rintro ⟨i, found, there⟩
    obtain ⟨r', there', same⟩ := h.get?_byId_iff.mp found
    obtain rfl := Option.some.inj (there'.symm.trans there)
    exact ⟨List.mem_of_getElem? there, same⟩
  · rintro ⟨mem, same⟩
    obtain ⟨i, there⟩ := List.mem_iff_getElem?.mp mem
    exact ⟨i, h.get?_byId_iff.mpr ⟨r, there, same⟩, there⟩

theorem declared?_eq (h : x.Represents t) (q : String) : x.declared? q = t.declared? q := by
  rw [declared?, h.rows_eq, h.indexes.byQualified, getLast?_findIdxs_bind]
  rfl

theorem namedSimply_eq (h : x.Represents t) (n : String) : x.namedSimply n = t.namedSimply n := by
  rw [namedSimply, h.rows_eq, h.indexes.bySimple, filterMap_findIdxs]
  rfl

end Represents

/-- Each index tells the positions of just those declarations that are in the list: the one of an
identity, the last one of a qualified name, all of a simple name. -/
structure Sound (x : IndexedTable) : Prop where
  length_ids : x.ids.length = x.declarations.length
  nodup_ids : x.ids.Nodup
  byId : ∀ id i, x.byId.get? id = some i ↔ x.ids[i]? = some id
  byQualified : ∀ q i, x.byQualified.get? q = some i ↔
    (∃ d, x.declarations[i]? = some d ∧ d.qualifiedName = some q) ∧
      ∀ j d, x.declarations[j]? = some d → d.qualifiedName = some q → j ≤ i
  bySimple : ∀ n positions, x.bySimple.get? n = some positions ↔
    positions ≠ [] ∧ positions.Pairwise (· < ·) ∧
      ∀ i, i ∈ positions ↔ ∃ d, x.declarations[i]? = some d ∧ d.simpleName = n

/-- A look-up of an identity, of a qualified name or of a simple name leads to the row. -/
def Finds (x : IndexedTable) (row : Row) : Prop :=
  ∃ name, x.row? name = some row ∨ x.declared? name = some row ∨ row ∈ x.namedSimply name

namespace Represents

theorem mem_findIdxs_rows_iff (h : x.Represents t) {p : Declaration → Bool} {i : Nat} :
    i ∈ t.rows.findIdxs (p ·.declaration) ↔ ∃ d, x.declarations[i]? = some d ∧ p d = true := by
  rw [mem_findIdxs_iff, h.getElem?_declarations]
  constructor
  · rintro ⟨r, there, holds⟩
    exact ⟨r.declaration, by rw [there]; rfl, holds⟩
  · rintro ⟨d, there, holds⟩
    obtain ⟨r, there', rfl⟩ := Option.map_eq_some_iff.mp there
    exact ⟨r, there', holds⟩

theorem sound (h : x.Represents t) : x.Sound where
  length_ids := by rw [h.indexes.ids, h.declarations, List.length_map, List.length_map]
  nodup_ids := h.indexes.ids ▸ t.distinct
  byId id i := by
    rw [h.get?_byId_iff, h.indexes.ids, List.getElem?_map, Option.map_eq_some_iff]
  byQualified q i := by
    rw [h.indexes.byQualified, getLast?_findIdxs_iff]
    have named := fun {j} => h.mem_findIdxs_rows_iff (p := (·.qualifiedName == some q)) (i := j)
    simp only [named, beq_iff_eq, forall_exists_index, and_imp]
  bySimple n positions := by
    have named := fun {j} => h.mem_findIdxs_rows_iff (p := (·.simpleName == n)) (i := j)
    have known := h.indexes.bySimple n
    have ascending : (t.rows.findIdxs (·.declaration.simpleName == n)).Pairwise (· < ·) :=
      List.pairwise_findIdxs
    constructor
    · intro found
      rw [found, Option.getD_some] at known
      refine ⟨fun none => h.indexes.listed n (none ▸ found), known ▸ ascending, fun i => ?_⟩
      rw [known, named]
      simp only [beq_iff_eq]
    · rintro ⟨some, sorted, mem⟩
      have same : positions = t.rows.findIdxs (·.declaration.simpleName == n) := by
        refine eq_findIdxs_iff.mpr ⟨sorted, fun i => ?_⟩
        rw [mem, ← mem_findIdxs_iff, named]
        simp only [beq_iff_eq]
      cases found : x.bySimple.get? n with
      | none =>
        rw [found] at known
        exact absurd (same.trans known.symm) some
      | some positions' =>
        rw [found] at known
        exact congrArg _ (known.trans same.symm)

/-- The look-ups lead to the rows of the table and to nothing else. -/
theorem finds_iff (h : x.Represents t) {row : Row} : x.Finds row ↔ row ∈ t.rows := by
  constructor
  · rintro ⟨name, found | found | found⟩
    · exact (Table.mem_of_row? (h.row?_eq name ▸ found)).1
    · exact Table.mem_of_declared? (h.declared?_eq name ▸ found)
    · exact (List.mem_filter.mp (h.namedSimply_eq name ▸ found)).1
  · intro mem
    exact ⟨row.id, .inl ((h.row?_eq row.id).trans (Table.row?_eq_some_iff.mpr ⟨mem, rfl⟩))⟩

end Represents

end IndexedTable

/-- What can be done to a table. -/
inductive Table.Call where
  | declare (d : Declaration)
  | withExternal (name : String)

/-- The table after a call. -/
def Table.call (t : Table) : Table.Call → Table
  | .declare d => t.declare d
  | .withExternal name => t.withExternal name

/-- The table that the calls make out of an empty one. -/
def Table.after (calls : List Table.Call) : Table := calls.foldl Table.call ∅

namespace IndexedTable

def call (x : IndexedTable) : Table.Call → IndexedTable
  | .declare d => x.declare d
  | .withExternal name => x.withExternal name

def after (calls : List Table.Call) : IndexedTable := calls.foldl call ∅

theorem represents_empty : (∅ : IndexedTable).Represents ∅ :=
  ⟨rfl, ⟨rfl, fun _ => rfl, fun _ => rfl, fun _ => rfl, fun _ => nofun⟩, rfl⟩

theorem Represents.call {x : IndexedTable} {t : Table} (h : x.Represents t) (c : Table.Call) :
    (x.call c).Represents (t.call c) :=
  match c with
  | .declare d => h.declare d
  | .withExternal name => h.withExternal name

theorem represents_after (calls : List Table.Call) :
    (after calls).Represents (Table.after calls) := by
  induction calls using List.reverseRecOn with
  | nil => exact represents_empty
  | append_singleton calls c ih =>
    rw [after, Table.after, List.foldl_concat, List.foldl_concat]
    exact ih.call c

/-- After any calls the declarations are those of the table in which each identity keeps its place
and its last declaration, the indexes tell where these stand, and a look-up leads to no others: once
an identity is declared again, it leads to the new declaration. -/
theorem indexes_sound_after (calls : List Table.Call) :
    let x := after calls
    let t := Table.after calls
    x.declarations = t.rows.map Row.declaration ∧ x.ids = t.rows.map Row.id ∧ x.Sound ∧
      (∀ row, x.Finds row ↔ row ∈ t.rows) ∧
      ∀ d, (d.idAt x.size ∉ x.ids →
          (x.declare d).declarations = x.declarations ++ [d] ∧
            (x.declare d).ids = x.ids ++ [d.idAt x.size]) ∧
        (∀ i, x.ids[i]? = some (d.idAt x.size) →
          (x.declare d).declarations = x.declarations.set i d ∧ (x.declare d).ids = x.ids) ∧
        ∀ row, (x.declare d).Finds row → row.id = d.idAt x.size → row.declaration = d := by
  intro x t
  have h : x.Represents t := represents_after calls
  refine ⟨h.declarations, h.indexes.ids, h.sound, fun row => h.finds_iff, fun d => ?_⟩
  have h' := h.declare d
  rw [h'.declarations, h'.indexes.ids, h.declarations, h.indexes.ids, h.size_eq]
  refine ⟨?_, ?_, ?_⟩
  · intro fresh
    rw [Table.rows_declare_of_fresh fresh, List.map_append, List.map_append]
    exact ⟨rfl, rfl⟩
  · intro i known
    rw [List.getElem?_map] at known
    obtain ⟨r, there, same⟩ := Option.map_eq_some_iff.mp known
    obtain ⟨rows, ids⟩ := Table.rows_declare_of_found there same
    rw [ids, rows, List.map_set]
    exact ⟨rfl, rfl⟩
  · intro row found same
    have here := Table.row_inj (h'.finds_iff.mp found) Table.mem_rows_declare_self same
    rw [here]

end IndexedTable

end WrapperGen
