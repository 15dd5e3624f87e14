import Mathlib.Data.List.Nodup
import Mathlib.Data.List.Perm.Basic
import WrapperGen.Json.Reader
import WrapperGen.Proofs.Json.Rework

namespace WrapperGen.Json

/-! ## Looking up fields -/

section

variable {β : Type} {fields fields' : List (String × β)} {name : String} {b : β}

theorem lookup_eq_filter (fields : List (String × β)) (name : String) :
    fields.lookup name = (fields.filter (·.1 == name)).head?.map Prod.snd := by
  induction fields with
  | nil => rfl
  | cons field rest ih =>
    rw [List.lookup_cons, List.filter_cons]
    by_cases here : name = field.1
    · simp [here]
    · simp [beq_false_of_ne here, beq_false_of_ne (Ne.symm here), ih]

theorem lookup_eq_some_of_filter (here : fields.filter (·.1 == name) = [(name, b)]) :
    fields.lookup name = some b := by
  rw [lookup_eq_filter, here]
  rfl

theorem lookup_eq_none_of_filter (gone : fields.filter (·.1 == name) = []) :
    fields.lookup name = none := by
  rw [lookup_eq_filter, gone]
  rfl

theorem mem_of_lookup_eq_some (found : fields.lookup name = some b) : (name, b) ∈ fields := by
  rw [lookup_eq_filter] at found
  obtain ⟨field, first, rfl⟩ := Option.map_eq_some_iff.mp found
  obtain ⟨mem, same⟩ := List.mem_filter.mp (List.mem_of_head? first)
  obtain rfl := beq_iff_eq.mp same
  exact mem

theorem lookup_eq_some_iff_mem (once : (fields.map Prod.fst).Nodup) :
    fields.lookup name = some b ↔ (name, b) ∈ fields := by
  refine ⟨mem_of_lookup_eq_some, fun mem => ?_⟩
  induction fields with
  | nil => cases mem
  | cons f rest ih =>
    obtain ⟨alone, later⟩ := List.nodup_cons.mp once
    obtain rfl | mem := List.mem_cons.mp mem
    · exact List.lookup_cons_self
    · have apart : name ≠ f.1 := fun same => alone (same ▸ List.mem_map_of_mem mem)
      rw [List.lookup_cons, beq_false_of_ne apart]
      exact ih later mem

theorem lookup_eq_none_of_notMem (gone : name ∉ fields.map Prod.fst) :
    fields.lookup name = none := by
  rw [Option.eq_none_iff_forall_ne_some]
  intro b found
  exact gone (List.mem_map_of_mem (mem_of_lookup_eq_some found))

theorem lookup_eq_of_perm (once : (fields.map Prod.fst).Nodup) (order : fields.Perm fields') :
    fields.lookup name = fields'.lookup name := by
  have once' := (order.map Prod.fst).nodup_iff.mp once
  ext b
  rw [lookup_eq_some_iff_mem once, lookup_eq_some_iff_mem once', order.mem_iff]

theorem lookup_map_snd {γ : Type} (g : β → γ) :
    (fields.map fun f => (f.1, g f.2)).lookup name = (fields.lookup name).map g := by
  induction fields with
  | nil => rfl
  | cons f rest ih =>
    rw [List.map_cons, List.lookup_cons, List.lookup_cons, ih]
    cases name == f.1 <;> rfl

end

section

variable {row : Row} {names : List String} {name : String} {n : Node}

/-- The fields of the row that have one of the names. -/
def among (names : List String) (row : Row) : Row := row.filter fun f => decide (f.1 ∈ names)

theorem mem_among {f : String × Node} : f ∈ among names row ↔ f ∈ row ∧ f.1 ∈ names := by
  simp [among]

theorem among_cons_of_mem (here : name ∈ names) :
    among names ((name, n) :: row) = (name, n) :: among names row :=
  List.filter_cons_of_pos (by simpa using here)

theorem among_cons_of_notMem (other : name ∉ names) :
    among names ((name, n) :: row) = among names row :=
  List.filter_cons_of_neg (by simpa using other)

theorem filter_among (here : name ∈ names) :
    (among names row).filter (·.1 == name) = row.filter (·.1 == name) := by
  rw [among, List.filter_filter]
  refine List.filter_congr fun f _ => ?_
  by_cases same : f.1 = name <;> simp [same, here]

theorem lookup_among (here : name ∈ names) : (among names row).lookup name = row.lookup name := by
  rw [lookup_eq_filter, filter_among here, ← lookup_eq_filter]

theorem nodup_among (once : ∀ name ∈ names, (row.filter (·.1 == name)).length ≤ 1) :
    ((among names row).map Prod.fst).Nodup := by
  rw [List.nodup_iff_count_le_one]
  intro name
  by_cases here : name ∈ names
  · rw [List.count, List.countP_map, List.countP_eq_length_filter]
    exact (filter_among here).symm ▸ once name here
  · have gone : name ∉ (among names row).map Prod.fst := by
      intro mem
      obtain ⟨f, found, rfl⟩ := List.mem_map.mp mem
      exact here (mem_among.mp found).2
    rw [List.count_eq_zero_of_not_mem gone]
    exact Nat.zero_le 1

end

/-! ## Reading records whose fields have names -/

/-- A record all of whose fields have a name. -/
def Node.named (row : Row) : Node := .record (row.map fun f => (.quoted (.text f.1), f.2)) none

theorem node_record (fields : List (String × Value)) :
    (Value.record fields).node = .named (fields.map fun f => (f.1, f.2.node)) := by
  have each : fieldNodes fields =
      (fields.map fun f => (f.1, f.2.node)).map fun f => (.quoted (.text f.1), f.2) := by
    induction fields with
    | nil => rfl
    | cons f rest ih =>
      rw [fieldNodes, ih]
      rfl
  rw [Value.node, each]
  rfl

theorem skip_named_eq_ok_iff {row : Row} :
    (Node.named row).skip = .ok () ↔ ∀ f ∈ row, f.2.skip = .ok () := by
  rw [Node.named, skip_record_eq_ok_iff, and_iff_left rfl, List.forall_mem_map]
  exact forall₂_congr fun _ _ => and_iff_right rfl

namespace RecordReader

variable {α : Type} {known : List (String × Reader Unit)} {room : Nat} {row acc found : Row}

/-- A field is checked if its name is known, else it is passed over. -/
def Passes (known : List (String × Reader Unit)) (room : Nat) (f : String × Node) : Prop :=
  match known.lookup f.1 with
  | some check => check room f.2 = .ok ()
  | none => f.2.skip = .ok ()

theorem forall_passes (fine : ∀ f ∈ row, f.2.skip = .ok ())
    (checked : ∀ k ∈ known, ∀ n, (k.1, n) ∈ row → k.2 room n = .ok ()) :
    ∀ f ∈ row, Passes known room f := by
  intro f mem
  unfold Passes
  split
  next check found => exact checked (f.1, check) (mem_of_lookup_eq_some found) f.2 mem
  next => exact fine f mem

theorem exists_lookup_iff {name : String} :
    (∃ check, known.lookup name = some check) ↔ name ∈ known.map Prod.fst := by
  rw [← Option.isSome_iff_exists, List.lookup_isSome_iff, List.mem_map]
  simp only [beq_iff_eq, @eq_comm String name]

theorem collect_cons_eq_ok_iff {name : String} {n : Node} {rest : List (Key × Node)} :
    collect known false room acc ((.quoted (.text name), n) :: rest) = .ok found ↔
      Passes known room (name, n) ∧
        if name ∈ known.map Prod.fst then
          acc.lookup name = none ∧ collect known false room ((name, n) :: acc) rest = .ok found
        else collect known false room acc rest = .ok found := by
  have named : (Key.quoted (.text name)).read = .ok name := rfl
  simp only [collect, named, bind_eq_ok_iff, Except.ok.injEq, exists_eq_left', Passes]
  cases here : known.lookup name with
  | none =>
    have other : name ∉ known.map Prod.fst := by
      rw [← exists_lookup_iff, here]
      simp
    simp [other, check_bind_eq_ok_iff]
  | some check =>
    have mem : name ∈ known.map Prod.fst := exists_lookup_iff.mp ⟨check, here⟩
    cases met : acc.lookup name <;> simp [mem, check_bind_eq_ok_iff]

/-- What is collected from named fields are those under known names, of which none stands twice. -/
theorem collect_named_eq_ok_iff :
    collect known false room acc (row.map fun f => (.quoted (.text f.1), f.2)) = .ok found ↔
      (∀ f ∈ row, Passes known room f) ∧
      ((among (known.map Prod.fst) row).map Prod.fst).Nodup ∧
      (∀ f ∈ among (known.map Prod.fst) row, acc.lookup f.1 = none) ∧
      found = (among (known.map Prod.fst) row).reverse ++ acc := by
  induction row generalizing acc with
  | nil =>
    rw [List.map_nil, collect, Except.ok.injEq]
    simp [among, @eq_comm Row acc]
  | cons f rest ih =>
    obtain ⟨name, n⟩ := f
    rw [List.map_cons, collect_cons_eq_ok_iff, List.forall_mem_cons, and_assoc]
    refine and_congr_right fun _ => ?_
    by_cases here : name ∈ known.map Prod.fst
    · rw [if_pos here, ih, among_cons_of_mem here]
      have later : ∀ f : String × Node, List.lookup f.1 ((name, n) :: acc) = none ↔
          f.1 ≠ name ∧ acc.lookup f.1 = none := by
        intro f
        by_cases same : f.1 = name
        · simp [same]
        · rw [List.lookup_cons, beq_false_of_ne same]
          exact (and_iff_right same).symm
      have apart : name ∉ (among (known.map Prod.fst) rest).map Prod.fst ↔
          ∀ f ∈ among (known.map Prod.fst) rest, f.1 ≠ name := by
        rw [← List.forall_mem_map (P := fun other => other ≠ name)]
        exact ⟨fun gone other mem same => gone (same ▸ mem), fun each mem => each name mem rfl⟩
      simp only [later, List.map_cons, List.nodup_cons, apart, List.forall_mem_cons,
        List.reverse_cons, List.append_assoc, List.singleton_append, forall_and]
      tauto
    · rw [if_neg here, ih, among_cons_of_notMem here]

/-- The record is built of its known fields, the others are passed over. -/
theorem openRead_named_eq_ok_iff {r : RecordReader α} {a : α} :
    r.openRead room (.named row) = .ok a ↔ ∃ inner, room = inner + 1 ∧
      (∀ f ∈ row, Passes r.fields inner f) ∧
      ((among (r.fields.map Prod.fst) row).map Prod.fst).Nodup ∧
      r.build inner (among (r.fields.map Prod.fst) row).reverse = .ok a := by
  cases room with
  | zero => simp [openRead, RecordReader.read, Node.named]
  | succ inner =>
    simp only [openRead, RecordReader.read, Node.named, bind_eq_ok_iff, orElse,
      collect_named_eq_ok_iff, List.append_nil]
    constructor
    · rintro ⟨_, ⟨passes, once, -, rfl⟩, -, -, built⟩
      exact ⟨inner, rfl, passes, once, built⟩
    · rintro ⟨_, ⟨⟩, passes, once, built⟩
      exact ⟨_, ⟨passes, once, fun _ _ => rfl, rfl⟩, (), trivial, built⟩

end RecordReader

end WrapperGen.Json
