import WrapperGen.Declaration

namespace WrapperGen

/-- A declaration under its identity. -/
structure Row where
  id : String
  declaration : Declaration

namespace Row

def symbol (r : Row) : Symbol where
  id := r.id
  kind := r.declaration.kind
  qualifiedName := r.declaration.qualifiedName
  simpleName := r.declaration.simpleName

/-- Puts a row in the place of the row of its identity, or at the end if there is none. -/
def upsert (row : Row) : List Row → List Row
  | [] => [row]
  | r :: rest => if r.id = row.id then row :: rest else r :: upsert row rest

theorem map_id_upsert (row : Row) (rows : List Row) :
    (upsert row rows).map Row.id =
      if row.id ∈ rows.map Row.id then rows.map Row.id else rows.map Row.id ++ [row.id] := by
  induction rows with
  | nil => simp [upsert]
  | cons r rest ih =>
    by_cases h : r.id = row.id
    · simp [upsert, h]
    · have h' : row.id ≠ r.id := fun e => h e.symm
      simp only [upsert, h, ↓reduceIte, List.map_cons, ih, List.mem_cons, h', false_or]
      split <;> simp

theorem upsert_of_fresh {row : Row} {rows : List Row} (fresh : row.id ∉ rows.map Row.id) :
    upsert row rows = rows ++ [row] := by
  induction rows with
  | nil => rfl
  | cons r rest ih =>
    have other : r.id ≠ row.id := fun same => fresh (by simp [same])
    rw [upsert, if_neg other, ih fun mem => fresh (List.mem_cons_of_mem _ mem)]
    rfl

theorem nodup_upsert {row : Row} {rows : List Row} (h : (rows.map Row.id).Nodup) :
    ((upsert row rows).map Row.id).Nodup := by
  rw [map_id_upsert]
  split
  · exact h
  · rename_i fresh
    exact List.nodup_append.mpr ⟨h, by simp, by
      intro a ha b hb
      simp only [List.mem_singleton] at hb
      exact fun e => fresh (hb ▸ e ▸ ha)⟩

end Row

/-- The declarations that are visible in one round, in the order in which their identities first
came up, and the names of types that are known without a declaration. -/
structure Table where
  rows : List Row
  externals : List String
  distinct : (rows.map Row.id).Nodup

namespace Table

def empty : Table := ⟨[], [], .nil⟩

instance : EmptyCollection Table := ⟨empty⟩
instance : Inhabited Table := ⟨empty⟩

def size (t : Table) : Nat := t.rows.length

def isEmpty (t : Table) : Bool := t.rows.isEmpty

/-- Adds a declaration; one of the same identity gives way to it. -/
def declare (t : Table) (d : Declaration) : Table where
  rows := Row.upsert ⟨d.idAt t.size, d⟩ t.rows
  externals := t.externals
  distinct := Row.nodup_upsert t.distinct

/-- Makes a type known by its name alone. -/
def withExternal (t : Table) (name : String) : Table :=
  { t with externals := if name ∈ t.externals then t.externals else t.externals ++ [name] }

def row? (t : Table) (id : String) : Option Row := t.rows.find? (·.id == id)

/-- The last declaration of a qualified name. -/
def declared? (t : Table) (qualifiedName : String) : Option Row :=
  t.rows.reverse.find? (·.declaration.qualifiedName == some qualifiedName)

/-- The declarations of a simple name. -/
def namedSimply (t : Table) (simpleName : String) : List Row :=
  t.rows.filter (·.declaration.simpleName == simpleName)

end Table

end WrapperGen
