import WrapperGen.Proofs.Output.Account

namespace WrapperGen.Output

open Files WrapperGen.Tree

variable {t u v w : Tree} {dir : Path} {place : Place} {files before : List OutputFile}
  {header : String} {fault : Fault} {failure : AccessFailure}

/-- How an output comes to a stop, and the files that it has written by then: the directory cannot
be made, the file at a path cannot be replaced when those before it have been written, or the
directory cannot be listed in the end. -/
inductive Stops (t : Tree) (dir : Path) (files : List OutputFile) (line : String) :
    AccessFailure → List OutputFile → Prop
  | noDirectory {fault : Fault} {v : Tree}
    (failed : createDirs (m := StateM Tree) dir t = (.error fault, v)) :
    Stops t dir files line ⟨dir, fault⟩ []
  | unwritten {fault : Fault} {v w x : Tree} {before after : List OutputFile} {file : OutputFile}
    (made : createDirs (m := StateM Tree) dir t = (.ok (), v))
    (split : files = before ++ file :: after)
    (wrote : writeFiles (m := StateM Tree) dir before v = (.ok (), w))
    (failed : writeAtomic (m := StateM Tree) (dir.join file.name) file.text.toUTF8 w =
      (.error fault, x)) :
    Stops t dir files line ⟨dir.join file.name, fault⟩ before
  | unlisted {fault : Fault} {v w : Tree}
    (made : createDirs (m := StateM Tree) dir t = (.ok (), v))
    (wrote : writeFiles (m := StateM Tree) dir files v = (.ok (), w)) (lined : line ≠ "")
    (failed : w.namesIn dir = .error fault) :
    Stops t dir files line ⟨dir, fault⟩ files

/-- What an output has done to a tree by the time it has written some files: nothing is removed, of
several files of one name the last is there, and everything else is as before but for directories
made on the way. -/
structure Interrupted (t u : Tree) (dir : Path) (place : Place) (before : List OutputFile) :
    Prop where
  home : u.home = t.home
  nothingRemoved : ∀ q, (t.find? q).isSome = true → (u.find? q).isSome = true
  /-- The last file of a name is what is read at its path, and no directory has made way for it. -/
  written : ∀ n file, before.findRev? (·.name == n) = some file →
    t.find? (n :: place) ≠ some .directory ∧
      u.find? (n :: place) = some (.file file.text.toUTF8) ∧
      u.readBytes (dir.join n) = .ok file.text.toUTF8
  kept : ∀ q, (∀ n ∈ before.map OutputFile.name, q ≠ n :: place) → u.find? q = t.find? q ∨
    t.find? q = none ∧ u.find? q = some .directory ∧ dir.Passes t.home q

theorem interrupted_of_makesWay (way : t.MakesWay dir u) (place : Place) :
    Interrupted t u dir place [] where
  home := way.home
  nothingRemoved q there := by
    obtain same | ⟨free, -⟩ := way.found q
    · rwa [same]
    · rw [free] at there
      cases there
  written n file last := by cases last
  kept q _ := by
    by_cases same : u.find? q = t.find? q
    · exact .inl same
    · exact .inr (way.new same)

/-- To write files into a directory that is there interrupts no more than to make it. -/
theorem Interrupted.putFiles (way : Interrupted t v dir place []) (leads : v.LeadsTo dir place)
    (named : ∀ file ∈ before, IsFileName file.name)
    (writable : ∀ file ∈ before, v.checkWrite dir file.name = .ok () ∧
      v.find? (file.name :: place) ≠ some .directory) :
    Interrupted t (v.putFiles place before) dir place before where
  home := (home_putFiles v place before).trans way.home
  nothingRemoved q there := by
    rw [find?_putFiles]
    cases before.findRev? fun file => file.name :: place == q with
    | none => exact way.nothingRemoved q there
    | some file => rfl
  written n file last := by
    obtain ⟨file', mem, rfl, -⟩ := exists_findRev?_of_mem (mem_names_of_findRev? last)
    obtain ⟨fine, other⟩ := writable file' mem
    have found : (v.putFiles place before).find? (file'.name :: place) =
        some (.file file.text.toUTF8) := by
      rw [find?_putFiles_name, last]
      rfl
    have leads' := leads.putFiles fun file mem => (writable file mem).2
    refine ⟨fun directory => ?_, found,
      readBytes_join leads' (named file' mem) (checkRead_of_checkWrite fine) found⟩
    obtain same | ⟨free, -⟩ := way.kept (file'.name :: place) nofun
    · exact other (same.trans directory)
    · cases free.symm.trans directory
  kept q other := by
    rw [find?_putFiles_of_notMem fun n same mem => other n mem same]
    exact way.kept q nofun

/-! ## Runs that stop -/

theorem interrupted_of_run_writeFiles (made : createDirs (m := StateM Tree) dir t = (.ok (), v))
    (named : ∀ file ∈ before, IsFileName file.name)
    (wrote : writeFiles (m := StateM Tree) dir before v = (.ok (), w)) :
    w.LeadsTo dir (dir.placeFrom t.home) ∧ Interrupted t w dir (dir.placeFrom t.home) before := by
  obtain ⟨way, there⟩ := makesWay_of_run_createDirs made
  obtain ⟨place, leads⟩ := (there rfl).2
  obtain ⟨writable, rfl⟩ := (run_writeFiles_eq_ok_iff leads named).mp wrote
  have here : dir.placeFrom t.home = place := way.home ▸ leads.placeFrom_eq
  rw [here]
  exact ⟨leads.putFiles fun file mem => (writable file mem).2,
    (interrupted_of_makesWay way place).putFiles leads named writable⟩

section

variable (named : ∀ file ∈ files, IsFileName file.name)
include named

theorem exists_interrupted_of_stops (stops : Stops t dir files (firstLine header) failure before) :
    ∃ u, write (m := StateM Tree) dir files header t = (.error failure, u) ∧
      Interrupted t u dir (dir.placeFrom t.home) before := by
  cases stops with
  | noDirectory failed =>
    have way := (makesWay_of_run_createDirs failed).1
    exact ⟨_, run_write_of_noDirectory failed, interrupted_of_makesWay way _⟩
  | @unwritten fault v w x before after file made split wrote failed =>
    subst split
    obtain ⟨front, others⟩ := List.forall_mem_append.mp named
    obtain ⟨leads, interrupted⟩ := interrupted_of_run_writeFiles made front wrote
    have same : x = w :=
      eq_of_run_writeAtomic_join leads (others file List.mem_cons_self) failed
    refine ⟨w, run_write_of_unwritten made ?_, interrupted⟩
    rw [run_writeFiles_append wrote, writeFiles, run_bind, failed, same]
    rfl
  | unlisted made wrote lined failed =>
    exact ⟨_, run_write_of_unlisted made wrote lined failed,
      (interrupted_of_run_writeFiles made named wrote).2⟩

/-- There is no other way to fail: in a directory that can be listed, what is stale can be
removed. -/
theorem exists_stops_of_run_write (proper : t.Proper)
    (run : write (m := StateM Tree) dir files header t = (.error failure, u)) :
    ∃ before, Stops t dir files (firstLine header) failure before := by
  rcases made : createDirs (m := StateM Tree) dir t with ⟨fault | _, v⟩
  · cases run.symm.trans (run_write_of_noDirectory made)
    exact ⟨[], .noDirectory made⟩
  · rcases wrote : writeFiles (m := StateM Tree) dir files v with ⟨failure' | _, w⟩
    · cases run.symm.trans (run_write_of_unwritten made wrote)
      obtain ⟨before, file, after, x, fault, split, rfl, front, failed⟩ :=
        exists_of_run_writeFiles_error wrote
      exact ⟨before, .unwritten made split front failed⟩
    · obtain ⟨gains, there⟩ := of_run_createDirs made
      obtain ⟨place, leads⟩ := there rfl
      obtain ⟨writable, rfl⟩ := (run_writeFiles_eq_ok_iff leads named).mp wrote
      have succeeds (listable : firstLine header ≠ "" → checkPath dir = .ok ()) :
          ∃ before, Stops t dir files (firstLine header) failure before := by
        obtain ⟨r, u', run', -⟩ :=
          exists_run_write made leads named (gains.proper proper) ⟨writable, listable⟩
        cases run.symm.trans run'
      by_cases lined : firstLine header = ""
      · exact succeeds fun some => absurd lined some
      · cases listed : (v.putFiles place files).namesIn dir with
        | ok names => exact succeeds fun _ => checkPath_of_namesIn listed
        | error fault =>
          cases run.symm.trans (run_write_of_unlisted made wrote lined listed)
          exact ⟨files, .unlisted made wrote lined listed⟩

/-- An output that fails has removed nothing. It has written the files before the one that could not
be written, and tells of the path of that one, or of the directory if that could not be made or
listed. -/
theorem failed_output_prunes_nothing :
    (∀ failure before, Stops t dir files (firstLine header) failure before →
      ∃ u, write (m := StateM Tree) dir files header t = (.error failure, u) ∧
        Interrupted t u dir (dir.placeFrom t.home) before) ∧
    (t.Proper → ∀ failure u, write (m := StateM Tree) dir files header t = (.error failure, u) →
      ∃ before, Stops t dir files (firstLine header) failure before) :=
  ⟨fun _ _ stops => exists_interrupted_of_stops named stops,
    fun proper _ _ run => exists_stops_of_run_write named proper run⟩

end

/-! ## A directory in the way -/

/-- The directory with an old file, and with a directory where a source is to be written. -/
def blockedShelf : Tree := (shelf "Old.swift").put ["B.swift", "out"] .directory

def draftSources : List OutputFile := [⟨"A.swift", "// H\na"⟩, ⟨"A.swift", "// H\nb"⟩]

/-- The old file outlives an output that would have removed it. Of the sources in front the last is
there, and the one behind has not been written. -/
theorem old_file_outlives_failure : ∃ u,
    write (m := StateM Tree) ⟨"out"⟩
        (draftSources ++ ⟨"B.swift", "// H\nc"⟩ :: [⟨"A.swift", "// H\nd"⟩]) "// H" blockedShelf =
      (.error ⟨⟨"out/B.swift"⟩, .isADirectory⟩, u) ∧
      u.find? ["A.swift", "out"] = some (.file "// H\nb".toUTF8) ∧
      u.find? ["Old.swift", "out"] = some (.file "// H\n".toUTF8) := by
  have named : ∀ file ∈ draftSources ++ ⟨"B.swift", "// H\nc"⟩ :: [⟨"A.swift", "// H\nd"⟩],
      IsFileName file.name := by decide
  have leads : blockedShelf.LeadsTo ⟨"out"⟩ ["out"] := rfl
  have stops : Stops blockedShelf ⟨"out"⟩
      (draftSources ++ ⟨"B.swift", "// H\nc"⟩ :: [⟨"A.swift", "// H\nd"⟩]) (firstLine "// H")
      ⟨⟨"out/B.swift"⟩, .isADirectory⟩ draftSources :=
    .unwritten (run_createDirs_of_leadsTo leads) rfl rfl rfl
  obtain ⟨u, run, interrupted⟩ := (failed_output_prunes_nothing named).1 _ _ stops
  refine ⟨u, run, (interrupted.written "A.swift" _ rfl).2.1, ?_⟩
  obtain same | ⟨free, -⟩ := interrupted.kept ["Old.swift", "out"] (by decide)
  · exact same
  · cases free

end WrapperGen.Output
