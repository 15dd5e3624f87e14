import WrapperGen.Proofs.Files.Directories

namespace WrapperGen

open Files

namespace Tree

variable {t u : Tree} {p : Path} {here place q : Place} {name : String} {names : List String}

/-- Whatever lies somewhere lies in a directory, and so does who works there. -/
structure WellFormed (t : Tree) : Prop where
  home : t.find? t.home = some .directory
  around : ∀ name place, (t.find? (name :: place)).isSome = true → t.find? place = some .directory

theorem not_cons_suffix_self (name : String) (place : Place) : ¬ name :: place <:+ place := by
  intro within
  have shorter := within.length_le
  rw [List.length_cons] at shorter
  omega

theorem ne_cons_of_suffix (within : q <:+ place) : q ≠ name :: place := fun same =>
  not_cons_suffix_self name place (same ▸ within)

theorem find?_new (home q : Place) :
    (new home).find? q = if q <:+ home then some .directory else none := by
  induction home with
  | nil => cases q <;> simp [new, directoriesTo, find?]
  | cons name around ih =>
    cases q with
    | nil => simp [find?]
    | cons first outer =>
      have later : (new around).find? (first :: outer) =
        (directoriesTo around).lookup (first :: outer) := rfl
      have next : (new (name :: around)).find? (first :: outer) =
        ((name :: around, Item.directory) :: directoriesTo around).lookup (first :: outer) := rfl
      rw [next, List.lookup_cons, ← later, ih]
      by_cases same : first :: outer = name :: around
      · simp [same]
      · rw [beq_false_of_ne same]
        simp only [List.suffix_cons_iff, same, false_or]

theorem wellFormed_new (home : Place) : (new home).WellFormed where
  home := (find?_new home home).trans (if_pos (List.suffix_refl home))
  around name place found := by
    rw [find?_new] at found ⊢
    split at found
    next within => exact if_pos ((List.suffix_cons name place).trans within)
    next => cases found

namespace WellFormed

variable (tree : t.WellFormed)
include tree

theorem directory_of_isSome (found : (t.find? place).isSome = true) (outer : q <:+ place)
    (apart : q ≠ place) : t.find? q = some .directory := by
  induction place with
  | nil => exact absurd (List.suffix_nil.mp outer) apart
  | cons name place ih =>
    have around := tree.around name place found
    obtain same | outer := List.suffix_cons_iff.mp outer
    · exact absurd same apart
    · by_cases here : q = place
      · rw [here, around]
      · exact ih (by rw [around]; rfl) outer here

theorem directory_of_suffix (found : t.find? place = some .directory) (outer : q <:+ place) :
    t.find? q = some .directory := by
  by_cases here : q = place
  · rw [here, found]
  · exact tree.directory_of_isSome (by rw [found]; rfl) outer here

theorem start (p : Path) : t.find? (t.start p) = some .directory := by
  unfold Tree.start
  split
  next => rfl
  next => exact tree.home

theorem descend (found : t.find? here = some .directory) (way : t.descend here names = .ok place) :
    t.find? place = some .directory := by
  induction names generalizing here with
  | nil => exact Except.ok.inj way ▸ found
  | cons name rest ih =>
    obtain ⟨next, enters, way⟩ := descend_cons_eq_ok_iff.mp way
    refine ih ?_ way
    cases enters with
    | same => exact found
    | outer => exact tree.directory_of_suffix found (List.tail_suffix here)
    | inner _ _ _ found => exact found

theorem leadsTo (leads : t.LeadsTo p place) : t.find? place = some .directory :=
  tree.descend (tree.start p) leads

theorem put_directory (found : t.find? here = some .directory) :
    (t.put (name :: here) .directory).WellFormed where
  home := by
    rw [home_put, find?_put, tree.home]
    split <;> rfl
  around first outer there := by
    have known : t.find? outer = some .directory := by
      rw [find?_put] at there
      split at there
      next same => rwa [(List.cons.inj same).2]
      next => exact tree.around first outer there
    rw [find?_put, known]
    split <;> rfl

theorem of_makeDir (made : t.makeDir p = .ok u) : u.WellFormed := by
  obtain ⟨_, _, located, -, rfl⟩ := makeDir_eq_ok_iff.mp made
  obtain ⟨-, -, front, last, here, -, way, -, -, -, rfl⟩ := locate_eq_named_iff.mp located
  exact tree.put_directory (tree.descend (tree.start p) way)

theorem of_run_makeOrKeepDir {result : Except Fault Unit}
    (run : makeOrKeepDir (m := StateM Tree) p t = (result, u)) : u.WellFormed := by
  rw [run_makeOrKeepDir] at run
  split at run
  next made =>
    cases run
    exact tree.of_makeDir made
  next =>
    cases run
    exact tree

omit tree in
theorem of_run_makeDirs {above : List (List String)} {result : Except Fault Unit}
    (tree : t.WellFormed) (run : makeDirs (m := StateM Tree) p above t = (result, u)) :
    u.WellFormed := by
  induction above generalizing p result u with
  | nil => exact tree.of_run_makeOrKeepDir run
  | cons names above ih =>
    rw [run_makeDirs] at run
    split at run
    next made =>
      cases run
      exact tree.of_makeDir made
    next =>
      split at run
      next outer => exact (ih outer).of_run_makeOrKeepDir run
      next outer =>
        cases run
        exact ih outer
    next =>
      cases run
      exact tree

theorem of_run_createDirs {result : Except Fault Unit}
    (run : createDirs (m := StateM Tree) p t = (result, u)) : u.WellFormed := by
  unfold createDirs at run
  split at run
  next =>
    cases run
    exact tree
  next => exact tree.of_run_makeDirs run

end WellFormed

end Tree

end WrapperGen
