import Mathlib.Data.List.Nodup
import Mathlib.Data.List.Perm.Subperm
import WrapperGen.Roster

namespace WrapperGen

namespace Roster

variable {α : Type} {name : α → String}

theorem find?_place (a : α) (l : List α) (n : String) :
    (place name a l).find? (name · == n) =
      if name a = n then some a else l.find? (name · == n) := by
  induction l with
  | nil => by_cases same : name a = n <;> simp [place, same]
  | cons b rest ih =>
    rw [place]
    split
    next => by_cases same : name a = n <;> simp [same]
    next =>
      split
      next eq => by_cases same : name a = n <;> simp [← eq, same]
      next other =>
        by_cases same : name b = n
        · have different : name a ≠ n := fun h => other (h.trans same.symm)
          simp [same, different]
        · simp [same, ih]

theorem find?_insert (r : Roster name) (a : α) (n : String) :
    (r.insert a).find? n = if name a = n then some a else r.find? n :=
  find?_place a r.toList n

theorem find?_erase (r : Roster name) (m n : String) :
    (r.erase m).find? n = if m = n then none else r.find? n := by
  change (r.toList.filter (name · != m)).find? (name · == n) = _
  rw [List.find?_filter]
  by_cases same : m = n
  · rw [if_pos same, List.find?_eq_none]
    intro a _
    simp [same]
  · rw [if_neg same]
    have test : ∀ a, decide ((name a != m) = true ∧ (name a == n) = true) = (name a == n) := by
      intro a
      by_cases h : name a = n
      · simp [h, Ne.symm same]
      · simp [h]
    simp only [test]
    rfl

theorem isEmpty_iff {r : Roster name} : r.isEmpty = true ↔ r = ∅ := by
  rw [isEmpty, List.isEmpty_iff]
  exact ⟨fun h => ext h, congrArg toList⟩

/-- Of values that are added one after the other, the last one of a name is found. -/
theorem find?_foldl_insert (values : List α) (r : Roster name) (n : String) :
    (values.foldl insert r).find? n = (values.findRev? (name · == n)).or (r.find? n) := by
  induction values generalizing r with
  | nil => rfl
  | cons a rest ih =>
    rw [List.foldl_cons, ih, find?_insert]
    simp only [List.findRev?_eq_find?_reverse, List.reverse_cons, List.find?_append]
    by_cases same : name a = n <;> simp [same]

theorem find?_foldl_erase {β : Type} (key : β → String) (items : List β) (r : Roster name)
    (n : String) :
    (items.foldl (fun r b => r.erase (key b)) r).find? n =
      if n ∈ items.map key then none else r.find? n := by
  induction items generalizing r with
  | nil => rfl
  | cons b rest ih =>
    rw [List.foldl_cons, ih, find?_erase]
    by_cases later : n ∈ rest.map key
    · simp [later]
    · by_cases same : key b = n
      · simp [same]
      · simp [later, same, Ne.symm same]

theorem nodup_names (r : Roster name) : (r.toList.map name).Nodup := by
  refine List.pairwise_map.mpr (r.ascending.imp ?_)
  intro a b before same
  exact String.lt_irrefl _ (same ▸ before)

theorem eq_of_name_eq {r : Roster name} {a b : α} (ha : a ∈ r.toList) (hb : b ∈ r.toList)
    (same : name a = name b) : a = b :=
  List.inj_on_of_nodup_map r.nodup_names ha hb same

theorem find?_eq_some_iff {r : Roster name} {n : String} {a : α} :
    r.find? n = some a ↔ a ∈ r.toList ∧ name a = n := by
  constructor
  · intro h
    exact ⟨List.mem_of_find?_eq_some h, by simpa using List.find?_some h⟩
  · rintro ⟨mem, rfl⟩
    cases h : r.find? (name a) with
    | none => simpa using List.find?_eq_none.mp h a mem
    | some b =>
      have same : name b = name a := by simpa using List.find?_some h
      exact congrArg some (eq_of_name_eq (List.mem_of_find?_eq_some h) mem same)

theorem mem_names_iff {r : Roster name} {n : String} : n ∈ r.names ↔ (r.find? n).isSome := by
  simp [names, find?]

theorem mem_insert {r : Roster name} {a b : α} :
    b ∈ (r.insert a).toList ↔ b = a ∨ b ∈ r.toList ∧ name b ≠ name a := by
  have found : b ∈ (r.insert a).toList ↔ (r.insert a).find? (name b) = some b := by
    simp [find?_eq_some_iff]
  rw [found, find?_insert]
  by_cases same : name a = name b
  · simp [same, eq_comm]
  · have other : b ≠ a := fun h => same (congrArg name h.symm)
    simp [same, other, Ne.symm same, find?_eq_some_iff]

/-- The order of the names leaves no choice for the order of the values. -/
theorem eq_of_mem_iff {r s : Roster name} (h : ∀ a, a ∈ r.toList ↔ a ∈ s.toList) : r = s := by
  have perm : r.toList.Perm s.toList :=
    (List.perm_ext_iff_of_nodup r.nodup_names.of_map s.nodup_names.of_map).mpr h
  refine ext (perm.eq_of_pairwise ?_ r.ascending s.ascending)
  intro a b _ _ before after
  exact absurd after (String.lt_asymm before)

theorem eq_of_find? {r s : Roster name} (h : ∀ n, r.find? n = s.find? n) : r = s := by
  apply eq_of_mem_iff
  intro a
  have found : r.find? (name a) = some a ↔ s.find? (name a) = some a := by rw [h]
  simpa [find?_eq_some_iff] using found

theorem subperm_of_subset {r : Roster name} {l : List α} (sub : r.toList ⊆ l) :
    r.toList.Subperm l :=
  List.subperm_of_subset r.nodup_names.of_map sub

theorem size_lt_of_subset {r s : Roster name} (sub : r.toList ⊆ s.toList) (ne : r ≠ s) :
    r.size < s.size := by
  by_contra notLess
  have perm := (subperm_of_subset sub).perm_of_length_le (Nat.not_lt.mp notLess)
  exact ne (eq_of_mem_iff fun a => perm.mem_iff)

theorem size_eq_zero_iff {r : Roster name} : r.size = 0 ↔ r = ∅ := by
  rw [size, List.length_eq_zero_iff]
  exact ⟨fun h => ext h, congrArg toList⟩

/-- Of values of different names all are kept. -/
theorem mem_ofList_of_nodup {values : List α} (distinct : (values.map name).Nodup) {a : α} :
    a ∈ (ofList values : Roster name).toList ↔ a ∈ values := by
  have kept : (ofList values : Roster name).find? (name a) =
      values.reverse.find? (name · == name a) := by
    rw [ofList, find?_foldl_insert, List.findRev?_eq_find?_reverse]
    exact Option.or_none
  have found : a ∈ (ofList values : Roster name).toList ↔
      values.reverse.find? (name · == name a) = some a := by
    rw [← kept, find?_eq_some_iff]
    exact (and_iff_left rfl).symm
  rw [found]
  constructor
  · intro h
    exact List.mem_reverse.mp (List.mem_of_find?_eq_some h)
  · intro mem
    cases h : values.reverse.find? (name · == name a) with
    | none => simpa using List.find?_eq_none.mp h a (List.mem_reverse.mpr mem)
    | some b =>
      have same : name b = name a := by simpa using List.find?_some h
      have memB : b ∈ values := List.mem_reverse.mp (List.mem_of_find?_eq_some h)
      exact congrArg some (List.inj_on_of_nodup_map distinct memB mem same)

theorem perm_ofList {values : List α} (distinct : (values.map name).Nodup) :
    (ofList values : Roster name).toList.Perm values :=
  (List.perm_ext_iff_of_nodup (nodup_names _).of_map distinct.of_map).mpr
    fun _ => mem_ofList_of_nodup distinct

theorem ofList_toList (r : Roster name) : ofList r.toList = r :=
  eq_of_mem_iff fun _ => mem_ofList_of_nodup r.nodup_names

end Roster

namespace NameSet

theorem mem_foldl_insert {β : Type} (key : β → String) (items : List β) (names : NameSet)
    (n : String) :
    n ∈ (items.foldl (fun names b => names.insert (key b)) names).toList ↔
      n ∈ items.map key ∨ n ∈ names.toList := by
  induction items generalizing names with
  | nil => simp
  | cons b rest ih =>
    rw [List.foldl_cons, ih, Roster.mem_insert]
    by_cases same : n = key b <;> simp [same]

theorem mem_ofList {names : List String} {n : String} :
    n ∈ (Roster.ofList names : NameSet).toList ↔ n ∈ names := by
  have inserted := mem_foldl_insert id names ∅ n
  rw [List.map_id, Roster.toList_empty] at inserted
  exact inserted.trans (or_iff_left List.not_mem_nil)

end NameSet

end WrapperGen
