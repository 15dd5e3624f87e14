import WrapperGen.Proofs.Files.Storing
import WrapperGen.Proofs.Files.Ways

namespace WrapperGen

open Files

namespace Tree

variable {t u v : Tree} {p : Path} {here place q : Place} {bytes : ByteArray} {fault : Fault}

/-- The system can have a file at the path, as far as its names and sizes go. -/
structure Takes (t : Tree) (p : Path) : Prop where
  path : p.Fits
  beside : (t.fresh p).Fits
  names : ∀ name ∈ p.names, name.utf8ByteSize ≤ 255
  noSlash : p.endsInSlash = false

instance (t : Tree) (p : Path) : Decidable (t.Takes p) :=
  decidable_of_iff (p.Fits ∧ (t.fresh p).Fits ∧ (∀ name ∈ p.names, name.utf8ByteSize ≤ 255) ∧
      p.endsInSlash = false)
    ⟨fun h => ⟨h.1, h.2.1, h.2.2.1, h.2.2.2⟩,
      fun takes => ⟨takes.path, takes.beside, takes.names, takes.noSlash⟩⟩

/-- A directory lies in the place, or a file around it. -/
def Obstructs (t : Tree) (place : Place) : Prop :=
  t.find? place = some .directory ∨
    ∃ q bytes, q <:+ place ∧ q ≠ place ∧ t.find? q = some (.file bytes)

/-- The bytes lie in the place, with directories around it, and all else is as it was. -/
structure Stored (t : Tree) (place : Place) (bytes : ByteArray) (u : Tree) : Prop where
  home : u.home = t.home
  found : ∀ q, u.find? q =
    if q = place then some (.file bytes) else if q <:+ place then some .directory else t.find? q

/-- All is as it was but for new directories around a place. -/
structure Approached (t : Tree) (place : Place) (u : Tree) : Prop where
  home : u.home = t.home
  found : ∀ q, u.find? q = t.find? q ∨
    t.find? q = none ∧ u.find? q = some .directory ∧ q <:+ place ∧ q ≠ place

theorem checkPath_fresh_iff : checkPath (t.fresh p) = .ok () ↔ (t.fresh p).Fits := by
  have named : IsFileName ".tmpXXXXXX" := by decide
  have filled : (t.fresh p).names ≠ [] := by
    rw [fresh, freshIn, Path.names_join named]
    simp
  rw [checkPath_eq_ok_iff, and_iff_right (Path.text_ne_empty filled)]

/-- Every name on a way over directories is short. -/
theorem checkName_of_descend {names : List String} (each : ∀ name ∈ names, IsFileName name)
    (way : t.descend here names = .ok place) : ∀ name ∈ names, checkName name = .ok () := by
  induction names generalizing here with
  | nil => exact fun _ mem => absurd mem List.not_mem_nil
  | cons name rest ih =>
    obtain ⟨proper, each⟩ := List.forall_mem_cons.mp each
    obtain ⟨next, enters, way⟩ := descend_cons_eq_ok_iff.mp way
    refine List.forall_mem_cons.mpr ⟨?_, ih each way⟩
    cases enters with
    | same => exact absurd rfl proper.notDot
    | outer => exact absurd rfl proper.notDots
    | inner _ _ short _ => exact short

theorem Takes.usable (takes : t.Takes p) (plain : p.Plain) : p.Usable where
  toPlain := plain
  fits := checkPath_eq_ok_iff.mpr ⟨Path.text_ne_empty plain.some, takes.path⟩
  short name mem := checkName_eq_ok_iff.mpr (takes.names name mem)

/-! ## Making the directory of a plain path -/

theorem placeFrom_of_leadsTo_parent {front : List String} {last : String} (plain : p.Plain)
    (names : p.names = front ++ [last]) (inside : v.LeadsTo p.parent here)
    (home : v.home = t.home) : p.placeFrom t.home = last :: here := by
  rw [plain.placeFrom_eq names, ← inside.placeFrom_eq, home]

theorem approached_of_run_createDirs {result : Except Fault Unit} (plain : p.Plain)
    (made : createDirs (m := StateM Tree) p.parent t = (result, u)) :
    t.Approached (p.placeFrom t.home) u := by
  obtain ⟨front, last, names⟩ := plain.exists_last
  have way := (makesWay_of_run_createDirs made).1
  refine ⟨way.home, fun q => ?_⟩
  by_cases same : u.find? q = t.find? q
  · exact .inl same
  · obtain ⟨free, found, passes⟩ := way.new same
    have within := plain.suffix_of_passes_parent names passes
    rw [plain.placeFrom_eq names]
    exact .inr ⟨free, found, within.trans (List.suffix_cons last _), ne_cons_of_suffix within⟩

/-- The directory of a path is there or can be made where no file lies around the path. -/
theorem exists_run_createDirs (usable : p.Usable)
    (free : ∀ q, q <:+ p.placeFrom t.home → q ≠ p.placeFrom t.home →
      ∀ bytes, t.find? q ≠ some (.file bytes)) :
    ∃ u, createDirs (m := StateM Tree) p.parent t = (.ok (), u) := by
  obtain ⟨front, last, names⟩ := usable.exists_last
  by_cases empty : front = []
  · have leads : t.LeadsTo p.parent (t.start p) :=
      (usable.leadsTo_parent_iff names).mpr (empty ▸ rfl)
    exact ⟨t, by rw [run_createDirs_of_leadsTo leads, usable.checkDirectory_parent]⟩
  · have outer := usable.parent names empty
    have place := usable.placeFrom_eq names t.home
    have around : ∀ q, q <:+ p.parent.placeFrom t.home →
        ∀ bytes, t.find? q ≠ some (.file bytes) := by
      intro q within
      exact free q (place ▸ within.trans (List.suffix_cons last _))
        (place ▸ ne_cons_of_suffix within)
    rw [createDirs_eq_makeDirs (Path.text_ne_empty outer.some)]
    exact exists_run_makeDirs outer around

/-- Where a file or a directory is in the way of a file, no directory is made for it. -/
theorem run_createDirs_of_obstructs (tree : t.WellFormed) (usable : p.Usable)
    (obstructs : t.Obstructs (p.placeFrom t.home)) :
    ∃ result, createDirs (m := StateM Tree) p.parent t = (result, t) := by
  obtain ⟨front, last, names⟩ := usable.exists_last
  have place := usable.placeFrom_eq names t.home
  by_cases found : t.find? (p.parent.placeFrom t.home) = some .directory
  · exact ⟨_, run_createDirs_of_leadsTo (leadsTo_parent_of_directory usable names tree found)⟩
  · -- the directory of the path is missing or a file, so that no directory lies in the place itself
    obtain here | ⟨q, bytes, within, apart, file⟩ := obstructs
    · rw [place] at here
      exact absurd (tree.around _ _ (by rw [here]; rfl)) found
    · have around : q <:+ p.parent.placeFrom t.home :=
        (List.suffix_cons_iff.mp (place ▸ within)).resolve_left fun same => apart (place ▸ same)
      have filled : front ≠ [] := by
        rintro rfl
        exact found ((usable.placeFrom_parent names t.home).symm ▸ tree.start p)
      have outer := usable.parent names filled
      obtain ⟨fault, made, other⟩ := makeDir_of_file tree outer file around
      rw [createDirs_eq_makeDirs (Path.text_ne_empty outer.some)]
      exact ⟨_, run_makeDirs_of_makeDir_eq_error made other _⟩

/-! ## Writing to a plain path -/

/-- The directory of the path is there in the second tree, for which no more than directories have
been made. -/
structure Prepared (t : Tree) (p : Path) (place : Place) (v : Tree) : Prop where
  here : p.placeFrom t.home = place
  gains : t.GainsDirectories v
  approached : t.Approached place v
  directories : ∀ q, q <:+ place → q ≠ place → v.find? q = some .directory

theorem exists_prepared_of_run_writeAtomic (tree : t.WellFormed) (plain : p.Plain)
    (run : writeAtomic (m := StateM Tree) p bytes t = (.ok (), u)) :
    ∃ v place, t.Prepared p place v ∧ v.Replaces p place bytes u := by
  obtain ⟨v, made, place, replaces⟩ := createDirs_of_run_writeAtomic run
  have approached := approached_of_run_createDirs plain made
  obtain ⟨-, -, front, last, here, names, way, -, -, -, rfl⟩ :=
    locate_eq_named_iff.mp replaces.located
  have inside : v.LeadsTo p.parent here := (plain.leadsTo_parent_iff names).mpr way
  have tree' := tree.of_run_createDirs made
  have place := placeFrom_of_leadsTo_parent plain names inside approached.home
  refine ⟨v, last :: here, ⟨place, (of_run_createDirs made).1, place ▸ approached, ?_⟩, replaces⟩
  intro q within apart
  exact tree'.directory_of_suffix (tree'.leadsTo inside)
    ((List.suffix_cons_iff.mp within).resolve_left apart)

namespace Prepared

variable (prepared : t.Prepared p place v) (replaces : v.Replaces p place bytes u)
include prepared replaces

theorem takes (plain : p.Plain) : t.Takes p := by
  obtain ⟨fine, noSlash, front, last, here, names, way, -, -, short, -⟩ :=
    locate_eq_named_iff.mp replaces.located
  refine ⟨(checkPath_eq_ok_iff.mp fine).2, ?_, fun name mem => ?_, noSlash⟩
  · rw [← fresh_of_home prepared.gains.home]
    exact checkPath_fresh_iff.mp replaces.beside
  · refine checkName_eq_ok_iff.mp ?_
    obtain inFront | atEnd := List.mem_append.mp (names ▸ mem)
    · exact checkName_of_descend (plain.isFileName_front names) way name inFront
    · rw [List.mem_singleton.mp atEnd, short]

theorem clear : ¬ t.Obstructs place := by
  rintro (found | ⟨q, bytes, within, apart, file⟩)
  · exact replaces.other (prepared.gains.directory found)
  · cases (prepared.directories q within apart).symm.trans (prepared.gains.file_iff.mpr file)

theorem stored : t.Stored place bytes u := by
  refine ⟨replaces.home.trans prepared.gains.home, fun q => ?_⟩
  rw [replaces.find?_eq]
  split
  next => rfl
  next apart =>
    split
    next within => exact prepared.directories q within apart
    next outside =>
      exact (prepared.approached.found q).resolve_right fun new => outside new.2.2.1

end Prepared

/-- A write that succeeds has stored the bytes, and nothing has been in its way. -/
theorem stored_of_run_writeAtomic (tree : t.WellFormed) (plain : p.Plain)
    (run : writeAtomic (m := StateM Tree) p bytes t = (.ok (), u)) :
    t.Takes p ∧ ¬ t.Obstructs (p.placeFrom t.home) ∧ t.Stored (p.placeFrom t.home) bytes u := by
  obtain ⟨v, place, prepared, replaces⟩ := exists_prepared_of_run_writeAtomic tree plain run
  rw [prepared.here]
  exact ⟨prepared.takes replaces plain, prepared.clear replaces, prepared.stored replaces⟩

theorem exists_run_writeAtomic (takes : t.Takes p) (plain : p.Plain)
    (clear : ¬ t.Obstructs (p.placeFrom t.home)) (bytes : ByteArray) :
    ∃ u, writeAtomic (m := StateM Tree) p bytes t = (.ok (), u) := by
  have usable := takes.usable plain
  obtain ⟨front, last, names⟩ := plain.exists_last
  obtain ⟨v, made⟩ := exists_run_createDirs usable fun q within apart bytes file =>
    clear (.inr ⟨q, bytes, within, apart, file⟩)
  have way := approached_of_run_createDirs plain made
  obtain ⟨here, inside⟩ := (of_run_createDirs made).2 rfl
  have place := placeFrom_of_leadsTo_parent plain names inside way.home
  have other : v.find? (last :: here) ≠ some .directory := by
    obtain same | new := way.found (last :: here)
    · rw [same, ← place]
      exact fun found => clear (.inl found)
    · exact absurd place.symm new.2.2.2
  have located := locate_of_leadsTo_parent usable names inside
  rw [takes.noSlash] at located
  have beside : checkPath (v.fresh p) = .ok () := by
    rw [fresh_of_home way.home]
    exact checkPath_fresh_iff.mpr takes.beside
  refine ⟨v.put (last :: here) (.file bytes), ?_⟩
  rw [writeAtomic, run_bind, made]
  exact (run_replace_eq_ok_iff inside).mpr ⟨_, beside, located, other, rfl⟩

/-- A write that fails although the system takes the path has changed nothing. -/
theorem eq_of_run_writeAtomic (tree : t.WellFormed) (plain : p.Plain) (takes : t.Takes p)
    (run : writeAtomic (m := StateM Tree) p bytes t = (.error fault, u)) : u = t := by
  have obstructs : t.Obstructs (p.placeFrom t.home) := by
    by_contra clear
    obtain ⟨v, success⟩ := exists_run_writeAtomic takes plain clear bytes
    cases run.symm.trans success
  obtain ⟨made, left⟩ := createDirs_of_run_writeAtomic run
  obtain ⟨result, same⟩ := run_createDirs_of_obstructs tree (takes.usable plain) obstructs
  exact congrArg Prod.snd (left.symm.trans same)

theorem Stored.wellFormed (stored : t.Stored place bytes u) (tree : t.WellFormed)
    (clear : ¬ t.Obstructs place) : u.WellFormed := by
  have other : ∀ q, t.find? q = some .directory → q ≠ place := fun q found same =>
    clear (.inl (same ▸ found))
  have kept : ∀ q, t.find? q = some .directory → u.find? q = some .directory := by
    intro q found
    rw [stored.found, if_neg (other q found), found, ite_self]
  refine ⟨stored.home ▸ kept _ tree.home, fun name q found => ?_⟩
  rw [stored.found] at found
  by_cases within : name :: q <:+ place
  · have outer : q <:+ place := (List.suffix_cons name q).trans within
    have apart : q ≠ place := by
      rintro rfl
      exact not_cons_suffix_self name q within
    rw [stored.found, if_neg apart, if_pos outer]
  · have apart : name :: q ≠ place := fun same => within (same ▸ List.suffix_refl _)
    rw [if_neg apart, if_neg within] at found
    exact kept q (tree.around name q found)

end Tree

end WrapperGen
