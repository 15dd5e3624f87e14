import Mathlib.Data.List.Forall2
import Mathlib.Data.List.Nodup
import WrapperGen.Proofs.Json.Grammar

namespace WrapperGen.Json

/-- What may be left out of a record. -/
def Value.IsDefault (v : Value) : Prop := v = .null ∨ v = .list []

theorem not_isDefault_text (s : String) : ¬(Value.text s).IsDefault := by
  simp [Value.IsDefault]

theorem eq_nil_of_isDefault_list {α : Type} {value : α → Value} {items : List α}
    (default : (Value.list (items.map value)).IsDefault) : items = [] := by
  simpa [Value.IsDefault] using default

theorem eq_none_of_isDefault_optionalText {s : Option String}
    (default : (Value.optionalText s).IsDefault) : s = none := by
  cases s with
  | none => rfl
  | some s => exact absurd default (not_isDefault_text s)

mutual

/-- What may be made of a value so that it still says the same: the fields of each record in any
order, without some that hold a default, and with more fields under other names. -/
inductive Reworked : Value → Value → Prop
  | null : Reworked .null .null
  | bool (b : Bool) : Reworked (.bool b) (.bool b)
  | number (n : Number) : Reworked (.number n) (.number n)
  | text (s : String) : Reworked (.text s) (.text s)
  | list {items items' : List Value} (each : List.Forall₂ Reworked items items') :
    Reworked (.list items) (.list items')
  | record {fields kept extra fields' : List (String × Value)} (parts : FieldsReworked fields kept)
    (unknown : ∀ field ∈ extra, field.1 ∉ fields.map Prod.fst)
    (order : fields'.Perm (kept ++ extra)) : Reworked (.record fields) (.record fields')

/-- Each field is kept with a value that says the same, or left out if it holds a default. -/
inductive FieldsReworked : List (String × Value) → List (String × Value) → Prop
  | nil : FieldsReworked [] []
  | keep {name : String} {v v' : Value} {rest kept : List (String × Value)} (value : Reworked v v')
    (others : FieldsReworked rest kept) :
    FieldsReworked ((name, v) :: rest) ((name, v') :: kept)
  | leave {name : String} {v : Value} {rest kept : List (String × Value)} (default : v.IsDefault)
    (others : FieldsReworked rest kept) : FieldsReworked ((name, v) :: rest) kept

end

mutual

theorem reworked_self (v : Value) : Reworked v v := by
  cases v with
  | null => exact .null
  | bool b => exact .bool b
  | number n => exact .number n
  | text s => exact .text s
  | list items => exact .list (forall₂_reworked_self items)
  | record fields =>
    have same : fields.Perm (fields ++ []) := by rw [List.append_nil]
    exact .record (fieldsReworked_self fields) (by simp) same

theorem forall₂_reworked_self (items : List Value) : List.Forall₂ Reworked items items := by
  cases items with
  | nil => exact .nil
  | cons v rest => exact .cons (reworked_self v) (forall₂_reworked_self rest)

theorem fieldsReworked_self (fields : List (String × Value)) : FieldsReworked fields fields := by
  cases fields with
  | nil => exact .nil
  | cons field rest => exact .keep (reworked_self field.2) (fieldsReworked_self rest)

end

/-! ## The fields of a reworked record -/

/-- Of each field there is one with a value that says the same, or none if it holds a default. -/
def KeepsFields (fields fields' : List (String × Value)) : Prop :=
  ∀ name v, (name, v) ∈ fields →
    (∃ v', Reworked v v' ∧ fields'.filter (·.1 == name) = [(name, v')]) ∨
      v.IsDefault ∧ fields'.filter (·.1 == name) = []

theorem FieldsReworked.sublist {fields kept : List (String × Value)}
    (h : FieldsReworked fields kept) : (kept.map Prod.fst).Sublist (fields.map Prod.fst) := by
  induction fields generalizing kept with
  | nil =>
    cases h
    exact .slnil
  | cons field rest ih =>
    cases h with
    | keep value others => exact (ih others).cons_cons _
    | leave default others => exact (ih others).cons _

theorem filter_eq_nil_of_notMem {fields : List (String × Value)} {name : String}
    (other : name ∉ fields.map Prod.fst) : fields.filter (·.1 == name) = [] := by
  refine List.filter_eq_nil_iff.mpr fun field mem same => other ?_
  exact List.mem_map.mpr ⟨field, mem, beq_iff_eq.mp same⟩

theorem FieldsReworked.keepsFields {fields kept : List (String × Value)}
    (h : FieldsReworked fields kept) (distinct : (fields.map Prod.fst).Nodup) :
    KeepsFields fields kept := by
  induction fields generalizing kept with
  | nil => exact nofun
  | cons field rest ih =>
    obtain ⟨once, later⟩ := List.nodup_cons.mp distinct
    intro name v mem
    obtain rfl | below := List.mem_cons.mp mem
    · cases h with
      | @keep _ _ v' _ kept value others =>
        have gone := filter_eq_nil_of_notMem fun mem => once (others.sublist.subset mem)
        exact .inl ⟨v', value, by rw [List.filter_cons_of_pos (by simp), gone]⟩
      | leave default others =>
        exact .inr ⟨default, filter_eq_nil_of_notMem fun mem => once (others.sublist.subset mem)⟩
    · have apart : field.1 ≠ name := fun same => once (same ▸ List.mem_map_of_mem below)
      cases h with
      | keep value others =>
        rw [List.filter_cons_of_neg (by simpa using apart)]
        exact ih others later name v below
      | leave default others => exact ih others later name v below

theorem Reworked.exists_fields {fields : List (String × Value)} {v : Value}
    (h : Reworked (.record fields) v) (distinct : (fields.map Prod.fst).Nodup) :
    ∃ fields', v = .record fields' ∧ KeepsFields fields fields' := by
  cases h with
  | @record _ kept extra fields' parts unknown order =>
    refine ⟨fields', rfl, fun name w mem => ?_⟩
    have none : extra.filter (·.1 == name) = [] :=
      filter_eq_nil_of_notMem fun here => by
        obtain ⟨field, there, rfl⟩ := List.mem_map.mp here
        exact unknown field there (List.mem_map.mpr ⟨(field.1, w), mem, rfl⟩)
    have same := order.filter (·.1 == name)
    rw [List.filter_append, none, List.append_nil] at same
    obtain ⟨v', value, one⟩ | ⟨default, gone⟩ := parts.keepsFields distinct name w mem
    · exact .inl ⟨v', value, List.perm_singleton.mp (one ▸ same)⟩
    · exact .inr ⟨default, (gone ▸ same).eq_nil⟩

theorem filter_ne_eq_self {fields : List (String × Value)} {name : String}
    (gone : fields.filter (·.1 == name) = []) : fields.filter (·.1 != name) = fields := by
  refine List.filter_eq_self.mpr fun field mem => ?_
  simpa using List.filter_eq_nil_iff.mp gone field mem

namespace KeepsFields

variable {fields fields' : List (String × Value)} {name : String} {v : Value}

/-- Without the first field the others are kept. -/
theorem of_cons (keeps : KeepsFields ((name, v) :: fields) fields')
    (once : name ∉ fields.map Prod.fst) : KeepsFields fields (fields'.filter (·.1 != name)) := by
  intro other w mem
  have apart : other ≠ name := fun same => once (same ▸ List.mem_map_of_mem mem)
  have same : (fields'.filter (·.1 != name)).filter (·.1 == other) =
      fields'.filter (·.1 == other) := by
    rw [List.filter_filter]
    refine List.filter_congr fun field _ => ?_
    by_cases here : field.1 = other
    · simp [here, apart]
    · simp [here]
  rw [same]
  exact keeps other w (List.mem_cons_of_mem _ mem)

theorem onlyField?_text (keeps : KeepsFields fields fields') {s : String}
    (mem : (name, .text s) ∈ fields) : Value.onlyField? name fields' = some (.text s) := by
  obtain ⟨v, same, here⟩ | ⟨default, -⟩ := keeps name _ mem
  · cases same
    rw [Value.onlyField?, here]
  · exact absurd default (not_isDefault_text s)

theorem fieldOnce? (keeps : KeepsFields fields fields') (mem : (name, v) ∈ fields) :
    (∃ v', Reworked v v' ∧ Value.fieldOnce? name fields' = some (some v')) ∨
      v.IsDefault ∧ Value.fieldOnce? name fields' = some none := by
  obtain ⟨v', same, here⟩ | ⟨default, gone⟩ := keeps name v mem
  · exact .inl ⟨v', same, by rw [Value.fieldOnce?, here]⟩
  · exact .inr ⟨default, by rw [Value.fieldOnce?, gone]⟩

end KeepsFields

/-! ## Values that can be read -/

mutual

/-- The numbers are finite as doubles, and at most `room` brackets are open at a time. -/
def Value.Within (room : Nat) : Value → Prop
  | .number n => n.isFinite = true
  | .list items => 0 < room ∧ ItemsWithin (room - 1) items
  | .record fields => 0 < room ∧ FieldsWithin (room - 1) fields
  | .null | .bool _ | .text _ => True

def ItemsWithin (room : Nat) : List Value → Prop
  | [] => True
  | v :: rest => v.Within room ∧ ItemsWithin room rest

def FieldsWithin (room : Nat) : List (String × Value) → Prop
  | [] => True
  | (_, v) :: rest => v.Within room ∧ FieldsWithin room rest

end

theorem itemsWithin_map {α : Type} {room : Nat} (value : α → Value) (items : List α) :
    ItemsWithin room (items.map value) ↔ ∀ a ∈ items, (value a).Within room := by
  induction items with
  | nil => simp [ItemsWithin]
  | cons a rest ih => simp [ItemsWithin, ih]

theorem fieldsWithin_iff {room : Nat} {fields : List (String × Value)} :
    FieldsWithin room fields ↔ ∀ field ∈ fields, field.2.Within room := by
  induction fields with
  | nil => simp [FieldsWithin]
  | cons field rest ih => simp only [FieldsWithin, ih, List.forall_mem_cons]

mutual

/-- A value that is within its bounds comes back from its node. -/
theorem value_node {room : Nat} (v : Value) (within : v.Within room) :
    v.node.value room = .ok v := by
  cases v with
  | null | bool _ | text _ => rfl
  | number n => exact if_pos within
  | list items =>
    have inner := itemValues_itemNodes items within.2
    rw [Value.node, Node.value, if_neg (Nat.ne_of_gt within.1)]
    simp only [bind, Except.bind, pure, Except.pure, inner, orElse]
  | record fields =>
    have inner := fieldValues_fieldNodes fields within.2
    rw [Value.node, Node.value, if_neg (Nat.ne_of_gt within.1)]
    simp only [bind, Except.bind, pure, Except.pure, inner, orElse]

theorem itemValues_itemNodes {room : Nat} (items : List Value) (within : ItemsWithin room items) :
    Node.itemValues room (itemNodes items) = .ok items := by
  cases items with
  | nil => rfl
  | cons v rest =>
    rw [itemNodes, Node.itemValues, value_node v within.1, itemValues_itemNodes rest within.2]
    rfl

theorem fieldValues_fieldNodes {room : Nat} (fields : List (String × Value))
    (within : FieldsWithin room fields) :
    Node.fieldValues room (fieldNodes fields) = .ok fields := by
  cases fields with
  | nil => rfl
  | cons field rest =>
    obtain ⟨name, v⟩ := field
    rw [fieldNodes, Node.fieldValues, value_node v within.1, fieldValues_fieldNodes rest within.2]
    rfl

end

mutual

/-- Any value is passed over. -/
theorem skip_node (v : Value) : v.node.skip = .ok () := by
  cases v with
  | null | bool _ | number _ | text _ => rfl
  | list items =>
    rw [Value.node, Node.skip, skipItems_itemNodes items]
    rfl
  | record fields =>
    rw [Value.node, Node.skip, skipFields_fieldNodes fields]
    rfl

theorem skipItems_itemNodes (items : List Value) : Node.skipItems (itemNodes items) = .ok () := by
  cases items with
  | nil => rfl
  | cons v rest =>
    rw [itemNodes, Node.skipItems, skip_node v, skipItems_itemNodes rest]
    rfl

theorem skipFields_fieldNodes (fields : List (String × Value)) :
    Node.skipFields (fieldNodes fields) = .ok () := by
  cases fields with
  | nil => rfl
  | cons field rest =>
    obtain ⟨name, v⟩ := field
    rw [fieldNodes, Node.skipFields, skip_node v, skipFields_fieldNodes rest]
    rfl

end

end WrapperGen.Json
