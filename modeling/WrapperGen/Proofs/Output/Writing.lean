import WrapperGen.Output
import WrapperGen.Proofs.Files.Entries

namespace WrapperGen

variable {t u v w : Tree} {dir : Path} {place : Place} {files before : List OutputFile}
  {failure : AccessFailure}

namespace Tree

/-- The tree with the files put into the directory at the place. -/
def putFiles (t : Tree) (place : Place) (files : List OutputFile) : Tree :=
  files.foldl (fun t file => t.put (file.name :: place) (.file file.text.toUTF8)) t

theorem home_putFiles (t : Tree) (place : Place) (files : List OutputFile) :
    (t.putFiles place files).home = t.home := by
  induction files generalizing t with
  | nil => rfl
  | cons file rest ih => exact ih _

/-- Of several files of one name the last is there. -/
theorem find?_putFiles (t : Tree) (place : Place) (files : List OutputFile) (q : Place) :
    (t.putFiles place files).find? q =
      ((files.findRev? (fun file => file.name :: place == q)).map
        (fun file => Item.file file.text.toUTF8)).or (t.find? q) := by
  induction files generalizing t with
  | nil => rfl
  | cons file rest ih =>
    change ((t.put (file.name :: place) (.file file.text.toUTF8)).putFiles place rest).find? q = _
    rw [ih, find?_put, List.findRev?]
    cases rest.findRev? (fun file => file.name :: place == q) with
    | some later => rfl
    | none =>
      by_cases here : q = file.name :: place
      · simp [here]
      · have apart : (file.name :: place == q) = false := beq_false_of_ne (Ne.symm here)
        simp [here, apart]

theorem find?_putFiles_name (t : Tree) (place : Place) (files : List OutputFile) (n : String) :
    (t.putFiles place files).find? (n :: place) =
      ((files.findRev? (·.name == n)).map (fun file => Item.file file.text.toUTF8)).or
        (t.find? (n :: place)) := by
  have same : (fun file : OutputFile => file.name :: place == n :: place) = (·.name == n) := by
    funext file
    rw [Bool.eq_iff_iff]
    simp
  rw [find?_putFiles, same]

theorem find?_putFiles_of_notMem {q : Place}
    (other : ∀ n, q = n :: place → n ∉ files.map OutputFile.name) :
    (t.putFiles place files).find? q = t.find? q := by
  have none : files.findRev? (fun file => file.name :: place == q) = none := by
    rw [List.findRev?_eq_find?_reverse, List.find?_eq_none]
    intro file mem here
    have written := List.mem_map_of_mem (f := OutputFile.name) (List.mem_reverse.mp mem)
    exact other file.name (beq_iff_eq.mp here).symm written
  rw [find?_putFiles, none]
  rfl

theorem find?_putFiles_name_of_notMem (t : Tree) (place : Place) {n : String}
    (other : n ∉ files.map OutputFile.name) :
    (t.putFiles place files).find? (n :: place) = t.find? (n :: place) :=
  find?_putFiles_of_notMem fun _ same => (List.cons.inj same).1 ▸ other

theorem Proper.putFiles (proper : t.Proper) (named : ∀ file ∈ files, IsFileName file.name) :
    (t.putFiles place files).Proper := by
  intro name around found
  by_cases here : around = place ∧ name ∈ files.map OutputFile.name
  · obtain ⟨file, mem, rfl⟩ := List.mem_map.mp here.2
    exact named file mem
  · rw [find?_putFiles_of_notMem] at found
    · exact proper name around found
    · intro n same
      cases same
      exact fun mem => here ⟨rfl, mem⟩

theorem LeadsTo.putFiles (leads : t.LeadsTo dir place)
    (other : ∀ file ∈ files, t.find? (file.name :: place) ≠ some .directory) :
    (t.putFiles place files).LeadsTo dir place := by
  refine leads.of_directories (home_putFiles t place files) fun q found => ?_
  rw [find?_putFiles_of_notMem, found]
  rintro n rfl written
  obtain ⟨file, mem, rfl⟩ := List.mem_map.mp written
  exact other file mem found

end Tree

namespace Output

open Files WrapperGen.Tree

theorem run_writeFiles_eq_ok_iff (leads : t.LeadsTo dir place)
    (proper : ∀ file ∈ files, IsFileName file.name) :
    writeFiles (m := StateM Tree) dir files t = (.ok (), u) ↔
      (∀ file ∈ files, t.checkWrite dir file.name = .ok () ∧
        t.find? (file.name :: place) ≠ some .directory) ∧ u = t.putFiles place files := by
  induction files generalizing t with
  | nil =>
    constructor
    · intro h
      cases h
      exact ⟨nofun, rfl⟩
    · rintro ⟨-, rfl⟩
      rfl
  | cons file rest ih =>
    have first := proper file List.mem_cons_self
    have others := fun file mem => proper file (List.mem_cons_of_mem _ mem)
    have entry {v : Tree} := run_writeAtomic_join_eq_ok_iff leads first file.text.toUTF8 (u := v)
    rw [writeFiles, run_bind, List.forall_mem_cons]
    rcases written : writeAtomic (m := StateM Tree) (dir.join file.name) file.text.toUTF8 t
      with ⟨result, v⟩
    cases result with
    | error fault =>
      constructor
      · exact nofun
      · rintro ⟨⟨⟨fine, other⟩, -⟩, -⟩
        have impossible := written.symm.trans (entry.mpr ⟨fine, other, rfl⟩)
        cases congrArg Prod.fst impossible
    | ok _ =>
      obtain ⟨fine, other, rfl⟩ := entry.mp written
      have same : ∀ name, ((t.put (file.name :: place) (.file file.text.toUTF8)).find?
          (name :: place) ≠ some .directory ↔ t.find? (name :: place) ≠ some .directory) := by
        intro name
        rw [find?_put]
        by_cases here : name = file.name
        · simpa [here] using other
        · simp [here]
      change writeFiles (m := StateM Tree) dir rest _ = (.ok (), u) ↔ _
      rw [ih (leads.put_file other) others]
      simp only [same, fine, other, ne_eq, not_false_eq_true, true_and, and_self,
        checkWrite_eq_of_home (home_put t _ _)]
      rfl

theorem run_writeFiles_append (wrote : writeFiles (m := StateM Tree) dir before v = (.ok (), w))
    (later : List OutputFile) :
    writeFiles (m := StateM Tree) dir (before ++ later) v =
      writeFiles (m := StateM Tree) dir later w := by
  induction before generalizing v with
  | nil =>
    cases wrote
    rfl
  | cons file rest ih =>
    rw [writeFiles] at wrote
    obtain ⟨_, x, first, others⟩ := exists_of_run_bind wrote fun _ _ => ⟨_, _, rfl⟩
    rw [List.cons_append, writeFiles, run_bind, first]
    exact ih others

theorem exists_of_run_writeFiles_error
    (run : writeFiles (m := StateM Tree) dir files v = (.error failure, u)) :
    ∃ before file after w fault, files = before ++ file :: after ∧
      failure = ⟨dir.join file.name, fault⟩ ∧
      writeFiles (m := StateM Tree) dir before v = (.ok (), w) ∧
      writeAtomic (m := StateM Tree) (dir.join file.name) file.text.toUTF8 w =
        (.error fault, u) := by
  induction files generalizing v with
  | nil => cases run
  | cons file rest ih =>
    rw [writeFiles, run_bind] at run
    rcases first : writeAtomic (m := StateM Tree) (dir.join file.name) file.text.toUTF8 v
      with ⟨fault | _, x⟩
    · rw [first] at run
      cases run
      exact ⟨[], file, rest, v, fault, rfl, rfl, rfl, first⟩
    · rw [first] at run
      obtain ⟨before, failed, after, w, fault, rfl, rfl, wrote, refused⟩ := ih run
      refine ⟨file :: before, failed, after, w, fault, rfl, rfl, ?_, refused⟩
      rw [writeFiles, run_bind, first]
      exact wrote

/-- When a file cannot be written those before it have been written, and that is all. -/
theorem of_run_writeFiles_error (leads : t.LeadsTo dir place)
    (proper : ∀ file ∈ files, IsFileName file.name)
    (h : writeFiles (m := StateM Tree) dir files t = (.error failure, u)) :
    ∃ before file after, files = before ++ file :: after ∧ failure.path = dir.join file.name ∧
      (∀ file ∈ before, t.find? (file.name :: place) ≠ some .directory) ∧
      u = t.putFiles place before := by
  obtain ⟨before, file, after, v, fault, rfl, rfl, wrote, failed⟩ :=
    exists_of_run_writeFiles_error h
  obtain ⟨front, others⟩ := List.forall_mem_append.mp proper
  obtain ⟨writable, rfl⟩ := (run_writeFiles_eq_ok_iff leads front).mp wrote
  have other := fun file mem => (writable file mem).2
  exact ⟨before, file, after, rfl, rfl, other, eq_of_run_writeAtomic_join (leads.putFiles other)
    (others file List.mem_cons_self) failed⟩

end Output

end WrapperGen
