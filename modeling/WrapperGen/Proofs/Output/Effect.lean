import WrapperGen.Proofs.Output.Pruning
import WrapperGen.Proofs.Output.Writing

namespace WrapperGen

variable {t u v w : Tree} {dir : Path} {place : Place} {files : List OutputFile}
  {line header : String} {fault : Fault} {failure : AccessFailure}

namespace Output

open Files WrapperGen.Tree

/-- Nothing prevents the files from being written and the directory from being listed. -/
structure Allowed (t : Tree) (dir : Path) (place : Place) (files : List OutputFile)
    (line : String) : Prop where
  writable : ∀ file ∈ files, t.checkWrite dir file.name = .ok () ∧
    t.find? (file.name :: place) ≠ some .directory
  listable : line ≠ "" → checkPath dir = .ok ()

/-- What has become of a directory: the files are there, of several of one name the last, the stale
files are not, and everything else is as before. -/
structure Effect (t u : Tree) (dir : Path) (place : Place) (files : List OutputFile)
    (line : String) : Prop where
  home : u.home = t.home
  written : ∀ n file, files.findRev? (·.name == n) = some file →
    u.find? (n :: place) = some (.file file.text.toUTF8)
  removed : ∀ n, n ∉ files.map OutputFile.name → line ≠ "" → t.Stale dir place line n →
    u.find? (n :: place) = none
  kept : ∀ q, (∀ n, q = n :: place → n ∉ files.map OutputFile.name ∧
    ¬(line ≠ "" ∧ t.Stale dir place line n)) → u.find? q = t.find? q

/-- What is reported of an output: the paths of the files in their order, then those of the stale
files in the order of their names. -/
structure Reports (t : Tree) (dir : Path) (place : Place) (files : List OutputFile)
    (line : String) (r : OutputReport) : Prop where
  written : r.written = files.map fun file => dir.join file.name
  removed : ∃ names : List String, names.Pairwise (· < ·) ∧ r.removed = names.map dir.join ∧
    ∀ n, n ∈ names ↔ n ∉ files.map OutputFile.name ∧ line ≠ "" ∧ t.Stale dir place line n

theorem mem_names_of_findRev? {n : String} {file : OutputFile}
    (last : files.findRev? (·.name == n) = some file) : n ∈ files.map OutputFile.name := by
  rw [List.findRev?_eq_find?_reverse] at last
  have named := List.find?_some (p := fun file : OutputFile => file.name == n) last
  have mem := List.mem_reverse.mp (List.mem_of_find?_eq_some last)
  exact List.mem_map.mpr ⟨file, mem, beq_iff_eq.mp named⟩

theorem effect_of_prune (removed : List String) (home : u.home = (t.putFiles place files).home)
    (mem : ∀ n, n ∈ removed ↔ n ∉ files.map OutputFile.name ∧ line ≠ "" ∧
      t.Stale dir place line n)
    (after : ∀ q, u.find? q =
      if q ∈ removed.map (· :: place) then none else (t.putFiles place files).find? q) :
    Effect t u dir place files line := by
  have stays : ∀ n, n ∉ removed → n :: place ∉ removed.map (· :: place) := by
    intro n kept here
    obtain ⟨m, mem, same⟩ := List.mem_map.mp here
    cases same
    exact kept mem
  refine ⟨home.trans (home_putFiles t place files), ?_, ?_, ?_⟩
  · intro n file last
    have kept : n ∉ removed := fun gone => ((mem n).mp gone).1 (mem_names_of_findRev? last)
    rw [after, if_neg (stays n kept), find?_putFiles_name, last]
    rfl
  · intro n other some stale
    rw [after, if_pos (List.mem_map_of_mem ((mem n).mpr ⟨other, some, stale⟩))]
  · intro q kept
    have here : q ∉ removed.map (· :: place) := by
      intro gone
      obtain ⟨n, there, rfl⟩ := List.mem_map.mp gone
      exact (kept n rfl).2 ((mem n).mp there).2
    rw [after, if_neg here, find?_putFiles_of_notMem fun n same => (kept n same).1]

theorem checkPath_of_namesIn {names : List String} (listed : t.namesIn dir = .ok names) :
    checkPath dir = .ok () := by
  obtain ⟨_, found, -⟩ := bind_eq_ok_iff.mp listed
  obtain ⟨_, located, -⟩ := bind_eq_ok_iff.mp found
  exact (of_locate located).1

section

variable {v : Tree} (made : createDirs (m := StateM Tree) dir t = (.ok (), v))
  (leads : v.LeadsTo dir place) (named : ∀ file ∈ files, IsFileName file.name)
include made leads named

/-- Writing succeeds where it is allowed. -/
theorem exists_run_write (proper : v.Proper)
    (allowed : Allowed v dir place files (firstLine header)) :
    ∃ r u, write (m := StateM Tree) dir files header t = (.ok r, u) ∧
      Effect v u dir place files (firstLine header) ∧
      Reports v dir place files (firstLine header) r := by
  have wrote := (run_writeFiles_eq_ok_iff leads named).mpr ⟨allowed.writable, rfl⟩
  rw [write, run_bind, made]
  simp only
  rw [run_bind, wrote]
  simp only
  by_cases empty : (firstLine header).isEmpty = true
  · rw [if_pos empty]
    have none : ∀ n, n ∈ ([] : List String) ↔ n ∉ files.map OutputFile.name ∧
        firstLine header ≠ "" ∧ v.Stale dir place (firstLine header) n := by
      simp [String.isEmpty_iff.mp empty]
    exact ⟨_, _, rfl, effect_of_prune [] rfl none (by simp), rfl, [], .nil, rfl, none⟩
  · rw [if_neg empty]
    have some : firstLine header ≠ "" := mt String.isEmpty_iff.mpr empty
    have leads' := leads.putFiles fun file mem => (allowed.writable file mem).2
    obtain ⟨names, listed, distinct, mem⟩ := exists_namesIn leads' (allowed.listable some)
    have proper' : ∀ n ∈ names, IsFileName n := fun n here =>
      proper.putFiles named n place ((mem n).mp here)
    obtain ⟨removed, u, run, home, gone, after⟩ := exists_run_prune leads' proper' distinct
      (firstLine header) (files.map OutputFile.name)
    have listing : Files.namesIn (m := StateM Tree) dir (v.putFiles place files) =
        (.ok names, v.putFiles place files) := congrArg (·, v.putFiles place files) listed
    have stale : ∀ n, n ∈ removed ↔ n ∉ files.map OutputFile.name ∧ firstLine header ≠ "" ∧
        v.Stale dir place (firstLine header) n := by
      intro n
      rw [gone, mem]
      constructor
      · rintro ⟨-, other, stale⟩
        have same := find?_putFiles_name_of_notMem v place other
        exact ⟨other, some, (stale_iff_of_find?_eq same).mp stale⟩
      · rintro ⟨other, -, stale⟩
        have same := find?_putFiles_name_of_notMem v place other
        obtain ⟨bytes, found, -⟩ := stale.begins
        refine ⟨?_, other, (stale_iff_of_find?_eq same).mpr stale⟩
        rw [same, found]
        rfl
    rw [run_bind, listing]
    simp only
    rw [run_bind, run]
    let sorted : NameSet := .ofList removed
    exact ⟨_, u, rfl, effect_of_prune removed home stale after, rfl, sorted.toList,
      sorted.ascending, rfl, fun n => NameSet.mem_ofList.trans (stale n)⟩

/-- Writing succeeds only where it is allowed. -/
theorem allowed_of_run_write {r : OutputReport}
    (run : write (m := StateM Tree) dir files header t = (.ok r, u)) :
    Allowed v dir place files (firstLine header) := by
  rw [write] at run
  obtain ⟨_, v', made', run⟩ := exists_of_run_bind run fun _ _ => ⟨_, _, rfl⟩
  cases made.symm.trans made'
  obtain ⟨_, w, wrote, run⟩ := exists_of_run_bind run fun _ _ => ⟨_, _, rfl⟩
  obtain ⟨writable, -⟩ := (run_writeFiles_eq_ok_iff leads named).mp wrote
  refine ⟨writable, fun some => ?_⟩
  simp only [String.isEmpty_iff, some, ↓reduceIte] at run
  obtain ⟨names, _, listed, -⟩ := exists_of_run_bind run fun _ _ => ⟨_, _, rfl⟩
  have listing : w.namesIn dir = .ok names := congrArg Prod.fst listed
  exact checkPath_of_namesIn listing

end

theorem exists_run_createDirs_of_run_write {r : OutputReport}
    (run : write (m := StateM Tree) dir files header t = (.ok r, u)) :
    ∃ v place, createDirs (m := StateM Tree) dir t = (.ok (), v) ∧ v.LeadsTo dir place := by
  rw [write] at run
  obtain ⟨_, v, made, -⟩ := exists_of_run_bind run fun _ _ => ⟨_, _, rfl⟩
  obtain ⟨place, leads⟩ := (of_run_createDirs made).2 rfl
  exact ⟨v, place, made, leads⟩

/-- What can come of an output: no directory, a file that cannot be written, a directory that cannot
be listed, or all that was asked for. -/
inductive Outcome (t : Tree) (dir : Path) (files : List OutputFile) (line : String) :
    Except AccessFailure OutputReport → Tree → Prop
  | noDirectory {fault : Fault} {v : Tree}
    (made : createDirs (m := StateM Tree) dir t = (.error fault, v)) :
    Outcome t dir files line (.error ⟨dir, fault⟩) v
  | unwritten {fault : Fault} {v : Tree} {place : Place} {before after : List OutputFile}
    {file : OutputFile} (made : createDirs (m := StateM Tree) dir t = (.ok (), v))
    (leads : v.LeadsTo dir place) (split : files = before ++ file :: after)
    (other : ∀ file ∈ before, v.find? (file.name :: place) ≠ some .directory) :
    Outcome t dir files line (.error ⟨dir.join file.name, fault⟩) (v.putFiles place before)
  | unlisted {fault : Fault} {v : Tree} {place : Place}
    (made : createDirs (m := StateM Tree) dir t = (.ok (), v)) (leads : v.LeadsTo dir place)
    (other : ∀ file ∈ files, v.find? (file.name :: place) ≠ some .directory) :
    Outcome t dir files line (.error ⟨dir, fault⟩) (v.putFiles place files)
  | done {v u : Tree} {place : Place} {r : OutputReport}
    (made : createDirs (m := StateM Tree) dir t = (.ok (), v)) (leads : v.LeadsTo dir place)
    (allowed : Allowed v dir place files line) (effect : Effect v u dir place files line)
    (reports : Reports v dir place files line r) : Outcome t dir files line (.ok r) u

theorem run_write_of_noDirectory
    (failed : createDirs (m := StateM Tree) dir t = (.error fault, v)) :
    write (m := StateM Tree) dir files header t = (.error ⟨dir, fault⟩, v) := by
  rw [write, run_bind, failed]
  rfl

section

variable (made : createDirs (m := StateM Tree) dir t = (.ok (), v))
include made

theorem run_write_of_unwritten
    (failed : writeFiles (m := StateM Tree) dir files v = (.error failure, w)) :
    write (m := StateM Tree) dir files header t = (.error failure, w) := by
  rw [write, run_bind, made]
  simp only
  rw [run_bind, failed]
  rfl

theorem run_write_of_unlisted
    (wrote : writeFiles (m := StateM Tree) dir files v = (.ok (), w))
    (lined : firstLine header ≠ "") (failed : w.namesIn dir = .error fault) :
    write (m := StateM Tree) dir files header t = (.error ⟨dir, fault⟩, w) := by
  have listing : Files.namesIn (m := StateM Tree) dir w = (.error fault, w) :=
    congrArg (·, w) failed
  rw [write, run_bind, made]
  simp only
  rw [run_bind, wrote]
  simp only [String.isEmpty_iff, lined, ↓reduceIte]
  rw [run_bind, listing]
  rfl

end

theorem of_run_write {result : Except AccessFailure OutputReport} (proper : t.Proper)
    (named : ∀ file ∈ files, IsFileName file.name)
    (run : write (m := StateM Tree) dir files header t = (result, u)) :
    Outcome t dir files (firstLine header) result u := by
  rcases made : createDirs (m := StateM Tree) dir t with ⟨fault | _, v⟩
  · cases run.symm.trans (run_write_of_noDirectory made)
    exact .noDirectory made
  · obtain ⟨gains, there⟩ := of_run_createDirs made
    obtain ⟨place, leads⟩ := there rfl
    rcases wrote : writeFiles (m := StateM Tree) dir files v with ⟨⟨path, fault⟩ | _, w⟩
    · cases run.symm.trans (run_write_of_unwritten made wrote)
      obtain ⟨before, file, after, split, rfl, other, rfl⟩ :=
        of_run_writeFiles_error leads named wrote
      exact .unwritten made leads split other
    · obtain ⟨writable, rfl⟩ := (run_writeFiles_eq_ok_iff leads named).mp wrote
      by_cases listable : firstLine header ≠ "" → checkPath dir = .ok ()
      · obtain ⟨r, u', run', effect, reports⟩ :=
          exists_run_write made leads named (gains.proper proper) ⟨writable, listable⟩
        cases run'.symm.trans run
        exact .done made leads ⟨writable, listable⟩ effect reports
      · obtain ⟨some, wrong⟩ := Classical.not_imp.mp listable
        cases listed : (v.putFiles place files).namesIn dir with
        | ok names => exact absurd (checkPath_of_namesIn listed) wrong
        | error fault =>
          cases run.symm.trans (run_write_of_unlisted made wrote some listed)
          exact .unlisted made leads fun file mem => (writable file mem).2

end Output

end WrapperGen
