import WrapperGen.Manifest.Text
import WrapperGen.Proofs.Roster.Lookup
import WrapperGen.Roster.Search

namespace WrapperGen

/-! ## Looking up by halving -/

namespace Roster

variable {α : Type} {name : α → String} {values : Array α} {n : String}

section

variable (ascending : values.toList.Pairwise fun a b => name a < name b)
include ascending

/-- The order of the names is that of the positions. -/
theorem name_lt_iff {i j : Nat} (hi : i < values.size) (hj : j < values.size) :
    name values[i] < name values[j] ↔ i < j := by
  have before : ∀ {i j : Nat} (hi : i < values.size) (hj : j < values.size), i < j →
      name values[i] < name values[j] := fun hi hj less =>
    List.pairwise_iff_getElem.mp ascending _ _ hi hj less
  refine ⟨fun less => ?_, before hi hj⟩
  by_contra notLess
  obtain rfl | greater := Nat.eq_or_lt_of_le (Nat.not_lt.mp notLess)
  · exact String.lt_irrefl _ less
  · exact String.lt_asymm less (before hj hi greater)

/-- The search finds what has the name between its two bounds. -/
theorem searchBetween_eq_some_iff {low high : Nat} (bound : high ≤ values.size) {a : α} :
    searchBetween name values n low high bound = some a ↔
      ∃ i, ∃ _ : i < values.size, low ≤ i ∧ i < high ∧ values[i] = a ∧ name a = n := by
  -- the half that is left out has no value of the name
  fun_induction searchBetween name values n low high bound with
  | case1 low high bound wide middle b same =>
    have inside : middle < values.size := by omega
    constructor
    · intro found
      obtain rfl := Option.some.inj found
      exact ⟨middle, inside, by omega, by omega, rfl, same⟩
    · rintro ⟨i, hi, -, -, rfl, named⟩
      have equal : name values[i] = name values[middle] := named.trans same.symm
      have notLess := (name_lt_iff ascending hi inside).not.mp (equal ▸ String.lt_irrefl _)
      have notGreater := (name_lt_iff ascending inside hi).not.mp (equal ▸ String.lt_irrefl _)
      have here : i = middle := by omega
      subst here
      rfl
  | case2 low high bound wide middle b other less ih =>
    rw [ih]
    constructor
    · rintro ⟨i, hi, above, below, found⟩
      exact ⟨i, hi, by omega, below, found⟩
    · rintro ⟨i, hi, -, below, rfl, named⟩
      have above := (name_lt_iff ascending (by omega) hi).mp (named ▸ less)
      exact ⟨i, hi, above, below, rfl, named⟩
  | case3 low high bound wide middle b other notLess ih =>
    have greater : n < name b := Std.lt_of_le_of_ne (String.not_lt.mp notLess) (Ne.symm other)
    rw [ih]
    constructor
    · rintro ⟨i, hi, above, below, found⟩
      exact ⟨i, hi, above, by omega, found⟩
    · rintro ⟨i, hi, above, -, rfl, named⟩
      have below := (name_lt_iff ascending hi (by omega)).mp (named ▸ greater)
      exact ⟨i, hi, above, below, rfl, named⟩
  | case4 low high bound narrow =>
    constructor
    · intro found
      cases found
    · rintro ⟨i, hi, above, below, -⟩
      omega

end

theorem search?_eq_find? (r : Roster name) (n : String) : r.search? n = r.find? n := by
  apply Option.ext
  intro a
  have ascending : r.toList.toArray.toList.Pairwise fun a b => name a < name b := r.ascending
  rw [search?, searchBetween_eq_some_iff ascending, find?_eq_some_iff, List.mem_iff_getElem]
  constructor
  · rintro ⟨i, hi, -, -, here, named⟩
    exact ⟨⟨i, hi, here⟩, named⟩
  · rintro ⟨⟨i, hi, here⟩, named⟩
    exact ⟨i, hi, Nat.zero_le i, hi, here, named⟩

/-- Of the values of a list the last one of a name is found. -/
theorem find?_ofList (l : List α) (n : String) :
    (ofList l : Roster name).find? n = (l.filter (name · = n)).getLast? := by
  have last : (l.filter (name · = n)).getLast? = l.findRev? (name · = n) := by
    rw [← List.head?_reverse, ← List.filter_reverse, List.head?_filter,
      List.findRev?_eq_find?_reverse]
  rw [last, ofList, find?_foldl_insert]
  exact Option.or_none

/-- Two lists give the same just if the last values of each name are the same in both. -/
theorem ofList_eq_ofList_iff {l m : List α} : (ofList l : Roster name) = ofList m ↔
    ∀ n, (l.filter (name · = n)).getLast? = (m.filter (name · = n)).getLast? := by
  simp only [← find?_ofList]
  exact ⟨fun same n => by rw [same], eq_of_find?⟩

end Roster

/-- Lists whose elements of each key are the same in the same order are rearrangements of each
other. -/
theorem perm_of_filter_eq {α β : Type} [DecidableEq α] [DecidableEq β] (key : α → β) {l m : List α}
    (same : ∀ k, l.filter (key · = k) = m.filter (key · = k)) : l.Perm m := by
  refine List.perm_iff_count.mpr fun a => ?_
  have own : ∀ l : List α, (l.filter (key · = key a)).count a = l.count a :=
    fun l => List.count_filter (by simp)
  rw [← own l, ← own m, same]

/-! ## Manifests of lists -/

namespace Manifest

/-- A manifest of a list comes in ascending order of the names. Each name has the last entry that the
list has for it, or none. Lists whose last entries are the same give one manifest, and so do lists
that differ only in how entries of different names are mixed. -/
theorem manifest_of_list (xs : List Entry) :
    (Roster.ofList xs : Manifest).toList.Pairwise (fun a b => a.className < b.className) ∧
    (∀ q, (Roster.ofList xs : Manifest).search? q = (xs.filter (·.className = q)).getLast?) ∧
    (∀ e, e ∈ (Roster.ofList xs : Manifest).toList ↔
      (xs.filter (·.className = e.className)).getLast? = some e) ∧
    ∀ ys : List Entry,
      ((Roster.ofList xs : Manifest) = .ofList ys ↔
        ∀ q, (xs.filter (·.className = q)).getLast? = (ys.filter (·.className = q)).getLast?) ∧
      ((∀ q, xs.filter (·.className = q) = ys.filter (·.className = q)) →
        xs.Perm ys ∧ (Roster.ofList xs : Manifest) = .ofList ys ∧
          (text (.ofList xs)).toUTF8 = (text (.ofList ys)).toUTF8) := by
  refine ⟨(Roster.ofList xs : Manifest).ascending, fun q => ?_, fun e => ?_, fun ys => ?_⟩
  · rw [Roster.search?_eq_find?, Roster.find?_ofList]
  · rw [← Roster.find?_ofList, Roster.find?_eq_some_iff]
    exact (and_iff_left rfl).symm
  · refine ⟨Roster.ofList_eq_ofList_iff, fun same => ?_⟩
    have one : (Roster.ofList xs : Manifest) = .ofList ys :=
      Roster.ofList_eq_ofList_iff.mpr fun q => by rw [same]
    exact ⟨perm_of_filter_eq Entry.className same, one, by rw [one]⟩

/-- Of two entries of one class the later one counts, wherever an entry of another class stands. -/
theorem later_player_kept :
    let first : Entry := ⟨"b.Player", "Player", none, []⟩
    let later : Entry := ⟨"b.Player", "Player", none, [⟨"stop", []⟩]⟩
    let other : Entry := ⟨"a.Home", "Home", none, []⟩
    (∀ q, [first, later, other].filter (·.className = q) =
        [first, other, later].filter (·.className = q)) ∧
      (Roster.ofList [first, later, other] : Manifest) = .ofList [first, other, later] ∧
      (Roster.ofList [first, later, other] : Manifest).search? "b.Player" = some later := by
  intro first later other
  have same : ∀ q, [first, later, other].filter (·.className = q) =
      [first, other, later].filter (·.className = q) := by
    intro q
    by_cases player : "b.Player" = q
    · subst player
      decide
    · by_cases home : "a.Home" = q
      · subst home
        decide
      · simp [first, later, other, player, home]
  obtain ⟨-, found, -, rearranged⟩ := manifest_of_list [first, later, other]
  exact ⟨same, ((rearranged [first, other, later]).2 same).2.1, found "b.Player"⟩

end Manifest

end WrapperGen
