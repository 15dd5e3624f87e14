import WrapperGen.Proofs.Json.Rows

namespace WrapperGen.Json

variable {α β : Type} {room : Nat}

theorem read_ofList (reader : Reader α) (text : List Char) :
    read reader (String.ofList text) = (do
      let (node, behind) := scanNode (2 * text.length + 2) text
      let a ← reader maxDepth node
      if behind.any fun rest => !(skipSpace rest).isEmpty then .error .malformed
      return a) := by
  rw [read, scanText_ofList]

/-- The spaces and the text around them do not matter to a reader. -/
theorem read_written (reader : Reader α) {n : Node} {text : String} (h : WrittenText n text) :
    read reader text = reader maxDepth n := by
  unfold read
  rw [scanText_written h]
  simp

theorem read_spelled (reader : Reader α) {v : Value} {a text b : List Char} (before : IsSpaces a)
    (h : Spelled v text) (behind : IsSpaces b) :
    read reader (String.ofList (a ++ (text ++ b))) = reader maxDepth v.node :=
  read_written reader ⟨a, text, b, before, h.written v, behind, rfl⟩

section

variable {reader : Reader α} {n : Node}

theorem readItems_eq_ok_iff {nodes : List Node} {items : List α} :
    readItems reader room nodes = .ok items ↔
      List.Forall₂ (fun n a => reader room n = .ok a) nodes items := by
  induction nodes generalizing items with
  | nil =>
    rw [readItems, List.forall₂_nil_left_iff, Except.ok.injEq]
    exact eq_comm
  | cons n rest ih =>
    simp only [readItems, bind_eq_ok_iff, ih, List.forall₂_cons_left_iff]
    constructor
    · rintro ⟨a, read, later, others, made⟩
      exact ⟨a, later, read, others, (Except.ok.inj made).symm⟩
    · rintro ⟨a, later, read, others, rfl⟩
      exact ⟨a, read, later, others, rfl⟩

theorem readList_eq_ok_iff {items : List α} :
    readList reader room n = .ok items ↔ ∃ inner nodes, room = inner + 1 ∧
      n = .list nodes none ∧ readItems reader inner nodes = .ok items := by
  constructor
  · intro read
    unfold readList at read
    split at read
    next => cases read
    next inner nodes ending =>
      obtain ⟨items', inside, read⟩ := bind_eq_ok_iff.mp read
      obtain ⟨closed, made⟩ := check_bind_eq_ok_iff.mp read
      cases made
      exact ⟨inner, nodes, rfl, by rw [orElse_eq_ok_iff.mp closed], inside⟩
    next => cases read
  · rintro ⟨inner, nodes, rfl, rfl, inside⟩
    rw [readList, inside]
    rfl

theorem readOptional_of_ne_null (present : n ≠ .null) :
    readOptional reader room n = some <$> reader room n := by
  unfold readOptional
  split
  next => exact absurd rfl present
  next => rfl

theorem readOptional_eq_ok_iff {value : Option α} :
    readOptional reader room n = .ok value ↔ n = .null ∧ value = none ∨
      ∃ a, reader room n = .ok a ∧ n ≠ .null ∧ value = some a := by
  by_cases absent : n = .null
  · subst absent
    simp [readOptional, @eq_comm _ value]
  · rw [readOptional_of_ne_null absent]
    cases reader room n <;> simp [absent, Functor.map, Except.map, @eq_comm _ value]

end

/-- Whatever is made of the value within the bounds, this is what is read. -/
def ReadsBack (reader : Reader α) (v : Value) (a : α) : Prop :=
  ∀ room v', Reworked v v' → v'.Within room → reader room v'.node = .ok a

theorem readsBack_text (s : String) : ReadsBack readText (.text s) s := by
  intro room v' h _
  cases h
  rfl

theorem Reworked.node_ne_null {v v' : Value} (h : Reworked v v') (present : v ≠ .null) :
    v'.node ≠ .null := by
  cases h with
  | null => exact absurd rfl present
  | bool | number | text | list | record => nofun

theorem readsBack_some {reader : Reader α} {v : Value} {a : α} (present : v ≠ .null)
    (h : ReadsBack reader v a) : ReadsBack (readOptional reader) v (some a) := by
  intro room v' reworked within
  rw [readOptional_of_ne_null (reworked.node_ne_null present), h room v' reworked within]
  rfl

theorem readsBack_none {reader : Reader α} : ReadsBack (readOptional reader) .null none := by
  intro room v' h _
  cases h
  rfl

theorem readsBack_optionalText (s : Option String) :
    ReadsBack (readOptional readText) (.optionalText s) s := by
  cases s with
  | none => exact readsBack_none
  | some s => exact readsBack_some nofun (readsBack_text s)

theorem readsBack_nat {limit n : Nat} (below : n < limit) :
    ReadsBack (readNat limit) (.nat n) n := by
  intro room v' h _
  cases h
  exact if_pos ⟨rfl, below⟩

theorem readItems_reworked {reader : Reader α} {value : α → Value} {items : List α}
    (each : ∀ a ∈ items, ReadsBack reader (value a) a) {items' : List Value}
    (h : List.Forall₂ Reworked (items.map value) items') (within : ItemsWithin room items') :
    readItems reader room (itemNodes items') = .ok items := by
  induction items generalizing items' with
  | nil =>
    cases h
    rfl
  | cons a rest ih =>
    cases h with
    | cons first others =>
      have head := each a List.mem_cons_self room _ first within.1
      have tail := ih (fun b mem => each b (List.mem_cons_of_mem a mem)) others within.2
      rw [itemNodes, readItems, head, tail]
      rfl

theorem readsBack_list {reader : Reader α} {value : α → Value} {items : List α}
    (each : ∀ a ∈ items, ReadsBack reader (value a) a) :
    ReadsBack (readList reader) (.list (items.map value)) items := by
  intro room v' h within
  cases h with
  | list inner =>
    obtain ⟨room, rfl⟩ := Nat.exists_eq_add_one.mpr within.1
    have read := readItems_reworked each inner within.2
    rw [Nat.add_sub_cancel] at read
    rw [Value.node, readList, read]
    rfl

namespace RecordReader

/-- The fields have what the record is built of: none of its fields stands twice, each is read, and
the record is built of them. -/
structure Finds (r : RecordReader α) (room : Nat) (fields : List (String × Value)) (a : α) :
    Prop where
  once : ∀ known ∈ r.fields, (fields.filter (·.1 == known.1)).length ≤ 1
  checked : ∀ known ∈ r.fields, ∀ v, (known.1, v) ∈ fields → known.2 room v.node = .ok ()
  built : ∀ row : Row,
    (∀ known ∈ r.fields, row.lookup known.1 = (fields.lookup known.1).map Value.node) →
    r.build room row = .ok a

theorem check_of_ok {reader : Reader α} {node : Node} {a : α} (h : reader room node = .ok a) :
    check reader room node = .ok () := by
  rw [check, h]
  rfl

section

variable {fields : List (String × Value)} {name : String} {reader : Reader α} {a : α}

theorem finds_field {v : Value} (here : fields.filter (·.1 == name) = [(name, v)])
    (read : reader room v.node = .ok a) : (field name reader).Finds room fields a where
  once known mem := by
    obtain rfl := List.mem_singleton.mp mem
    rw [here]
    exact Nat.le_refl 1
  checked known mem w found := by
    obtain rfl := List.mem_singleton.mp mem
    have only : (name, w) ∈ fields.filter (·.1 == name) := by simpa using found
    rw [here, List.mem_singleton] at only
    cases only
    exact check_of_ok read
  built row same := by
    have found := same (name, check reader) (List.mem_singleton_self _)
    simp only [lookup_eq_some_of_filter here, Option.map_some] at found
    simp only [field, found, read]

theorem finds_fieldOr {v : Value} (here : fields.filter (·.1 == name) = [(name, v)])
    (read : reader room v.node = .ok a) (default : α) :
    (fieldOr name reader default).Finds room fields a where
  once := (finds_field here read).once
  checked := (finds_field here read).checked
  built row same := by
    have found := same (name, check reader) (List.mem_singleton_self _)
    simp only [lookup_eq_some_of_filter here, Option.map_some] at found
    simp only [fieldOr, found, read]

theorem finds_default (gone : fields.filter (·.1 == name) = []) (reader : Reader α) (default : α) :
    (fieldOr name reader default).Finds room fields default where
  once known mem := by
    obtain rfl := List.mem_singleton.mp mem
    rw [gone]
    exact Nat.zero_le 1
  checked known mem w found := by
    obtain rfl := List.mem_singleton.mp mem
    have none : (name, w) ∈ fields.filter (·.1 == name) := by simpa using found
    rw [gone] at none
    cases none
  built row same := by
    have found := same (name, check reader) (List.mem_singleton_self _)
    simp only [lookup_eq_none_of_filter gone, Option.map_none] at found
    simp only [fieldOr, found]

theorem Finds.seq {f : RecordReader (α → β)} {r : RecordReader α} {g : α → β}
    (hf : f.Finds room fields g) (ha : r.Finds room fields a) :
    (f <*> r).Finds room fields (g a) where
  once := List.forall_mem_append.mpr ⟨hf.once, ha.once⟩
  checked := List.forall_mem_append.mpr ⟨hf.checked, ha.checked⟩
  built row same := by
    have first := hf.built row fun known mem => same known (List.mem_append_left _ mem)
    have second := ha.built row fun known mem => same known (List.mem_append_right _ mem)
    change (do
      let g ← f.build room row
      let x ← r.build room row
      return g x) = _
    rw [first, second]
    rfl

theorem Finds.map (g : α → β) {r : RecordReader α} (h : r.Finds room fields a) :
    (g <$> r).Finds room fields (g a) := by
  have constant : (pure g : RecordReader (α → β)).Finds room fields g :=
    ⟨nofun, nofun, fun _ _ => rfl⟩
  exact constant.seq h

end

/-- A record is read from its fields in any order, with any others among them. -/
theorem Finds.read {r : RecordReader α} {fields : List (String × Value)} {a : α}
    (h : r.Finds room fields a) : r.openRead (room + 1) (Value.record fields).node = .ok a := by
  have once : ((among (r.fields.map Prod.fst) (fields.map fun f => (f.1, f.2.node))).map
      Prod.fst).Nodup := by
    refine nodup_among fun name mem => ?_
    obtain ⟨known, here, rfl⟩ := List.mem_map.mp mem
    rw [List.filter_map, List.length_map]
    exact h.once known here
  rw [node_record]
  refine openRead_named_eq_ok_iff.mpr ⟨room, rfl, forall_passes ?_ ?_, once,
    h.built _ fun known mem => ?_⟩
  · exact List.forall_mem_map.mpr fun f _ => skip_node f.2
  · intro known mem n found
    obtain ⟨⟨_, v⟩, here, same⟩ := List.mem_map.mp found
    cases same
    exact h.checked known mem v here
  · rw [← lookup_eq_of_perm once (List.reverse_perm _).symm, lookup_among (List.mem_map_of_mem mem),
      lookup_map_snd]

/-! ## Records that have been reworked -/

/-- The record is built of its fields, whatever is made of them within the bounds. -/
def Rebuilds (r : RecordReader α) (fields : List (String × Value)) (a : α) : Prop :=
  ∀ room fields', KeepsFields fields fields' → FieldsWithin room fields' →
    r.Finds room fields' a

section

variable {fields : List (String × Value)} {name : String} {v : Value} {reader : Reader α} {a : α}

theorem within_of_filter {room : Nat} {v : Value} (within : FieldsWithin room fields)
    (here : fields.filter (·.1 == name) = [(name, v)]) : v.Within room := by
  have mem : (name, v) ∈ fields.filter (·.1 == name) := here ▸ List.mem_singleton_self _
  exact fieldsWithin_iff.mp within _ (List.mem_of_mem_filter mem)

theorem rebuilds_field (mem : (name, v) ∈ fields) (needed : ¬v.IsDefault)
    (reads : ReadsBack reader v a) : (field name reader).Rebuilds fields a := by
  intro room fields' keeps within
  obtain ⟨v', reworked, here⟩ | ⟨default, -⟩ := keeps name v mem
  · exact finds_field here (reads room v' reworked (within_of_filter within here))
  · exact absurd default needed

theorem rebuilds_fieldOr {default : α} (mem : (name, v) ∈ fields)
    (other : v.IsDefault → a = default) (reads : ReadsBack reader v a) :
    (fieldOr name reader default).Rebuilds fields a := by
  intro room fields' keeps within
  obtain ⟨v', reworked, here⟩ | ⟨left, gone⟩ := keeps name v mem
  · exact finds_fieldOr here (reads room v' reworked (within_of_filter within here)) default
  · exact other left ▸ finds_default gone reader default

theorem rebuilds_text {s : String} (mem : (name, .text s) ∈ fields) :
    (field name readText).Rebuilds fields s :=
  rebuilds_field mem (not_isDefault_text s) (readsBack_text s)

theorem rebuilds_list {value : α → Value} {items : List α}
    (mem : (name, .list (items.map value)) ∈ fields)
    (each : ∀ a ∈ items, ReadsBack reader (value a) a) :
    (fieldOr name (readList reader) []).Rebuilds fields items :=
  rebuilds_fieldOr mem eq_nil_of_isDefault_list (readsBack_list each)

theorem Rebuilds.seq {f : RecordReader (α → β)} {r : RecordReader α} {g : α → β}
    (hf : f.Rebuilds fields g) (ha : r.Rebuilds fields a) : (f <*> r).Rebuilds fields (g a) :=
  fun room fields' keeps within =>
    (hf room fields' keeps within).seq (ha room fields' keeps within)

theorem Rebuilds.map (g : α → β) {r : RecordReader α} (h : r.Rebuilds fields a) :
    (g <$> r).Rebuilds fields (g a) :=
  fun room fields' keeps within => (h room fields' keeps within).map g

theorem Rebuilds.readsBack {r : RecordReader α} (h : r.Rebuilds fields a)
    (distinct : (fields.map Prod.fst).Nodup) : ReadsBack r.openRead (.record fields) a := by
  intro room v' reworked within
  obtain ⟨fields', rfl, keeps⟩ := reworked.exists_fields distinct
  obtain ⟨room, rfl⟩ := Nat.exists_eq_add_one.mpr within.1
  exact (h room fields' keeps within.2).read

end

end RecordReader

end WrapperGen.Json
