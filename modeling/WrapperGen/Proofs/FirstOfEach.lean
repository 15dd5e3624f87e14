import Mathlib.Data.List.Basic
import WrapperGen.FirstOfEach

namespace WrapperGen

variable {α β : Type} [DecidableEq β]

/-- A choice by the key takes all elements of a key or none, so it may come before or after. -/
theorem filter_firstOfEach (key : α → β) (p : β → Bool) (l : List α) :
    (firstOfEach key l).filter (fun a => p (key a)) =
      firstOfEach key (l.filter fun a => p (key a)) := by
  induction l with
  | nil => rfl
  | cons a rest ih =>
    by_cases chosen : p (key a) = true
    · simp only [firstOfEach, List.filter_cons, chosen, ↓reduceIte]
      rw [← ih, List.filter_filter, List.filter_filter]
      simp only [Bool.and_comm]
    · simp only [firstOfEach, List.filter_cons, chosen]
      rw [if_neg (by simp), if_neg (by simp), ← ih, List.filter_filter]
      apply List.filter_congr
      intro b _
      by_cases same : key b = key a
      · simp [same, chosen]
      · simp [same]

/-- Elements whose keys have come up may be dropped before more elements follow. -/
theorem firstOfEach_append_firstOfEach (key : α → β) (l later : List α) :
    firstOfEach key (firstOfEach key l ++ later) = firstOfEach key (l ++ later) := by
  induction l with
  | nil => rfl
  | cons a rest ih =>
    simp only [firstOfEach, List.cons_append]
    have others : ∀ items : List α, (firstOfEach key items).filter (key · ≠ key a) =
        firstOfEach key (items.filter (key · ≠ key a)) :=
      filter_firstOfEach key (· ≠ key a)
    rw [others (rest ++ later), others, List.filter_append, List.filter_filter]
    simp only [Bool.and_self]
    rw [← List.filter_append, ← others, ih, others]

/-- An element whose key has come up does not count. -/
theorem firstOfEach_append_cons (key : α → β) {l : List α} {a : α} (known : key a ∈ l.map key)
    (later : List α) : firstOfEach key (l ++ a :: later) = firstOfEach key (l ++ later) := by
  induction l with
  | nil => cases known
  | cons b rest ih =>
    simp only [List.cons_append, firstOfEach]
    by_cases same : key a = key b
    · have others : ∀ items : List α, (firstOfEach key items).filter (key · ≠ key b) =
          firstOfEach key (items.filter (key · ≠ key b)) :=
        filter_firstOfEach key (· ≠ key b)
      rw [others, others, List.filter_append, List.filter_append, List.filter_cons_of_neg]
      simp [same]
    · have known' : key a ∈ rest.map key := (List.mem_cons.mp known).resolve_left same
      rw [ih known']

theorem firstOfEach_of_nodup (key : α → β) {l : List α} (distinct : (l.map key).Nodup) :
    firstOfEach key l = l := by
  induction l with
  | nil => rfl
  | cons a rest ih =>
    obtain ⟨apart, distinct'⟩ := List.nodup_cons.mp distinct
    rw [firstOfEach, ih distinct', List.filter_eq_self.mpr]
    intro b mem
    have other : key b ≠ key a := fun same => apart (same ▸ List.mem_map_of_mem mem)
    simpa using other

/-- The first element of a key is the one that counts. -/
theorem mem_firstOfEach_iff (key : α → β) {l : List α} {a : α} :
    a ∈ firstOfEach key l ↔ l.find? (key · = key a) = some a := by
  induction l with
  | nil => simp [firstOfEach]
  | cons b rest ih =>
    rw [firstOfEach, List.mem_cons, List.mem_filter, ih]
    by_cases same : key b = key a
    · simp [same, eq_comm]
    · have other : a ≠ b := fun h => same (congrArg key h.symm)
      simp [same, other, Ne.symm same]

theorem map_firstOfEach (key : α → β) : ∀ l, (firstOfEach key l).map key = (l.map key).eraseDups
  | [] => rfl
  | a :: rest => by
    have others : (firstOfEach key rest).filter (key · ≠ key a) =
        firstOfEach key (rest.filter (key · ≠ key a)) :=
      filter_firstOfEach key (· ≠ key a) rest
    rw [firstOfEach, others, List.map_cons, map_firstOfEach key (rest.filter _), List.map_cons,
      List.eraseDups_cons, List.filter_map]
    congr 3
    apply List.filter_congr
    intro b _
    by_cases same : key b = key a <;> simp [same]
termination_by l => l.length
decreasing_by exact Nat.lt_succ_of_le (List.length_filter_le _ rest)

theorem mem_map_firstOfEach (key : α → β) (l : List α) (k : β) :
    k ∈ (firstOfEach key l).map key ↔ k ∈ l.map key := by
  rw [map_firstOfEach, List.mem_eraseDups]

/-- Of what is appended only those elements count whose keys have not come up before. -/
theorem firstOfEach_append (key : α → β) (l later : List α) :
    firstOfEach key (l ++ later) =
      firstOfEach key l ++ (firstOfEach key later).filter (key · ∉ l.map key) := by
  induction l with
  | nil => simp [firstOfEach]
  | cons a rest ih =>
    rw [List.cons_append, firstOfEach, ih, firstOfEach, List.cons_append, List.filter_append,
      List.filter_filter]
    congr 2
    refine List.filter_congr fun b _ => ?_
    simp [not_or]

/-- The choice of first elements takes nothing from those of a kind just if each of them is the
first of its key. -/
theorem filter_firstOfEach_eq_filter_iff (key : α → β) (p : α → Bool) (l : List α) :
    (firstOfEach key l).filter p = l.filter p ↔
      l.Pairwise fun a b => key a = key b → p b = false := by
  induction l with
  | nil => simp [firstOfEach]
  | cons a rest ih =>
    have others : (firstOfEach key (a :: rest)).filter p = (a :: rest).filter p ↔
        ((firstOfEach key rest).filter p).filter (key · ≠ key a) = rest.filter p := by
      rw [firstOfEach, List.filter_cons, List.filter_cons, List.filter_filter, List.filter_filter]
      simp only [Bool.and_comm]
      split <;> simp
    rw [others, List.pairwise_cons, ← ih]
    constructor
    · intro same
      have first : (firstOfEach key rest).filter p = rest.filter p :=
        ((firstOfEach_sublist key rest).filter p).antisymm (same ▸ List.filter_sublist)
      refine ⟨fun b mem equal => Bool.eq_false_iff.mpr fun chosen => ?_, first⟩
      have kept : b ∈ ((firstOfEach key rest).filter p).filter (key · ≠ key a) :=
        same ▸ List.mem_filter.mpr ⟨mem, chosen⟩
      simpa [equal] using (List.mem_filter.mp kept).2
    · rintro ⟨apart, first⟩
      rw [first, List.filter_eq_self]
      intro b mem
      obtain ⟨mem', chosen⟩ := List.mem_filter.mp mem
      have other : key b ≠ key a := fun equal =>
        Bool.false_ne_true ((apart b mem' equal.symm).symm.trans chosen)
      simpa using other

end WrapperGen
